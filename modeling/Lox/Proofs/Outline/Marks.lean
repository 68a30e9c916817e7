import Lox.Proofs.Outline.Programs
import Mathlib.Data.List.Nodup

/-!
# Marks and places in outlines

The outline of a program has the marks of the program, in the same order. The walk gives each reference
the place where lexical scoping finds its name, and these are the places that resolution gives.
-/

namespace Lox

variable {ρ σ : Type}

/-! ## References with their places -/

/-- The label with another mark on its reference. -/
def Label.mapMarks (f : String → ρ → σ) : Label ρ → Label σ
  | operation => operation
  | read target => read (target.mapMark f)
  | store target => store (target.mapMark f)
  | this line mark => this line (f thisName mark)
  | super line mark => super line (f superName mark)
  | statement => statement
  | ret line hasValue => ret line hasValue
  | «variable» name => «variable» name
  | function name => function name
  | parameter name => parameter name
  | classDecl name superclass => classDecl name superclass
  | inherits target => inherits (target.mapMark f)
  | scope => scope
  | body isInitializer => body isInitializer
  | implicit name => implicit name

/-- Adds the place of the reference that stands here, within the scopes. -/
def Label.locate (scopes : Scopes) (label : Label ρ) : Label (ρ × Place) :=
  label.mapMarks fun name mark => (mark, scopes.place name)

mutual

/-- Adds the places of the references of an outline that the walk comes to within the scopes. -/
def Outline.locate (scopes : Scopes) : Outline ρ → Outline (ρ × Place)
  | .node label parts =>
    .node (label.locate scopes) (Outline.locateAll (label.scopesInside scopes) parts)

def Outline.locateAll (scopes : Scopes) : List (Outline ρ) → List (Outline (ρ × Place))
  | [] => []
  | o :: os => o.locate scopes :: Outline.locateAll (o.scopesAfter scopes) os

end

mutual

/-- The marks of the references, in the order of the text. -/
def Outline.marks : Outline ρ → List ρ
  | .node label parts => (label.refers?.map Prod.snd).toList ++ Outline.marksAll parts

def Outline.marksAll : List (Outline ρ) → List ρ
  | [] => []
  | o :: os => o.marks ++ Outline.marksAll os

end

theorem Label.refers?_mapMarks (f : String → ρ → σ) (label : Label ρ) :
    (label.mapMarks f).refers? = label.refers?.map fun r => (r.1, f r.1 r.2) := by
  cases label <;> rfl

namespace Outline

variable {o : Outline ρ} {os parts : List (Outline ρ)} {label : Label ρ} {scopes : Scopes}
  {i : Nat} {q q' : Position} {name name' : String} {mark : ρ}

theorem getElem?_locateAll :
    ∀ (os : List (Outline ρ)) (scopes : Scopes) (i : Nat),
      (locateAll scopes os)[i]? = os[i]?.map (·.locate (scopesAfterAll scopes (os.take i)))
  | [], _, _ => by simp [locateAll]
  | o :: os, scopes, 0 => by simp [locateAll, scopesAfterAll]
  | o :: os, scopes, i + 1 => by
    simp only [locateAll, List.getElem?_cons_succ, List.take_succ_cons, scopesAfterAll]
    exact getElem?_locateAll os _ i

/-- A node gets its places within the scopes that the walk has there. -/
theorem label?_locate :
    ∀ {q : Position} {o : Outline ρ} {c : Context} {l : Label (ρ × Place)},
      (o.locate c.scopes).label? q = some l ↔
        ∃ d label, o.contextAt c q = some d ∧ o.label? q = some label ∧
          l = label.locate d.scopes
  | [], .node label parts, c, l => by
    simp only [locate, label?_nil, contextAt_nil, Option.some.injEq]
    constructor
    · rintro rfl
      exact ⟨c, label, rfl, rfl, rfl⟩
    · rintro ⟨d, label', rfl, rfl, rfl⟩
      rfl
  | i :: q, .node label parts, c, l => by
    simp only [locate, label?_cons, getElem?_locateAll, contextAt_cons]
    cases at_i : parts[i]? with
    | none => simp
    | some o =>
      have inPart := label?_locate (q := q) (o := o) (l := l)
        (c := (label.inside c).behind (parts.take i))
      simp only [Option.map_some, Option.bind_some, Option.some.injEq, exists_eq_left']
      exact inPart

/-- **A reference gets the place that lexical scoping gives to its name.** -/
theorem refersAt_locate {place : Place} :
    (o.locate []).RefersAt q name (mark, place) ↔ o.RefersAt q name mark ∧ o.Lands q name place := by
  constructor
  · rintro ⟨l, there, refers⟩
    obtain ⟨d, label, reached, standing, rfl⟩ := (label?_locate (c := .top)).1 there
    rw [Label.locate, Label.refers?_mapMarks, Option.map_eq_some_iff] at refers
    obtain ⟨⟨name', mark'⟩, refers, same⟩ := refers
    cases same
    exact ⟨⟨label, standing, refers⟩, lands_place reached⟩
  · rintro ⟨⟨label, standing, refers⟩, lands⟩
    obtain ⟨d, reached⟩ := exists_contextAt (c := .top) standing
    have located := (label?_locate (c := .top)).2 ⟨d, label, reached, standing, rfl⟩
    refine ⟨label.locate d.scopes, located, ?_⟩
    rw [Label.locate, Label.refers?_mapMarks, refers, lands.unique (lands_place reached)]
    rfl

/-! ## Marks -/

theorem refersAt_nil :
    (node label parts).RefersAt [] name mark ↔ label.refers? = some (name, mark) := by
  simp [RefersAt]

theorem refersAt_cons :
    (node label parts).RefersAt (i :: q) name mark ↔
      ∃ o, parts[i]? = some o ∧ o.RefersAt q name mark := by
  constructor
  · rintro ⟨l, there, refers⟩
    obtain ⟨o, at_i, inside⟩ := Option.bind_eq_some_iff.1 there
    exact ⟨o, at_i, l, inside, refers⟩
  · rintro ⟨o, at_i, l, inside, refers⟩
    exact ⟨l, Option.bind_eq_some_iff.2 ⟨o, at_i, inside⟩, refers⟩

mutual

theorem mem_marks :
    ∀ {o : Outline ρ}, mark ∈ o.marks ↔ ∃ q name, o.RefersAt q name mark
  | .node label parts => by
    rw [marks, List.mem_append, mem_marksAll]
    constructor
    · rintro (here | ⟨i, o, q, name, at_i, refers⟩)
      · rw [Option.mem_toList, Option.map_eq_some_iff] at here
        obtain ⟨⟨name, m⟩, refers, rfl⟩ := here
        exact ⟨[], name, refersAt_nil.2 refers⟩
      · exact ⟨i :: q, name, refersAt_cons.2 ⟨o, at_i, refers⟩⟩
    · rintro ⟨q, name, refers⟩
      cases q with
      | nil => exact .inl (by simp [refersAt_nil.1 refers])
      | cons i q =>
        obtain ⟨o, at_i, inPart⟩ := refersAt_cons.1 refers
        exact .inr ⟨i, o, q, name, at_i, inPart⟩

theorem mem_marksAll :
    ∀ {os : List (Outline ρ)},
      mark ∈ marksAll os ↔
        ∃ (i : Nat) (o : Outline ρ) (q : Position) (name : String),
          os[i]? = some o ∧ o.RefersAt q name mark
  | [] => by simp [marksAll]
  | o :: os => by
    rw [marksAll, List.mem_append, mem_marks, mem_marksAll]
    constructor
    · rintro (⟨q, name, refers⟩ | ⟨i, o', q, name, at_i, refers⟩)
      · exact ⟨0, o, q, name, rfl, refers⟩
      · exact ⟨i + 1, o', q, name, at_i, refers⟩
    · rintro ⟨i, o', q, name, at_i, refers⟩
      cases i with
      | zero =>
        obtain rfl : o = o' := Option.some.inj at_i
        exact .inl ⟨q, name, refers⟩
      | succ i => exact .inr ⟨i, o', q, name, at_i, refers⟩

end

theorem marksAll_eq_flatMap : ∀ os : List (Outline ρ), marksAll os = os.flatMap marks
  | [] => rfl
  | o :: os => by rw [marksAll, marksAll_eq_flatMap os, List.flatMap_cons]

/-- Where no mark stands twice, no two parts have a mark in common. -/
theorem part_unique {i j : Nat} {o o' : Outline ρ} (distinct : (marksAll os).Nodup)
    (at_i : os[i]? = some o) (at_j : os[j]? = some o') (mem : mark ∈ o.marks)
    (mem' : mark ∈ o'.marks) : i = j := by
  rw [marksAll_eq_flatMap, List.nodup_flatMap] at distinct
  have apart := List.pairwise_iff_getElem.1 distinct.2
  obtain ⟨hi, rfl⟩ := List.getElem?_eq_some_iff.1 at_i
  obtain ⟨hj, rfl⟩ := List.getElem?_eq_some_iff.1 at_j
  rcases Nat.lt_trichotomy i j with before | same | after
  · exact absurd mem' (apart i j hi hj before mem)
  · exact same
  · exact absurd mem (apart j i hj hi after mem')

theorem not_refersAt_part (distinct : (node label parts).marks.Nodup)
    (here : (node label parts).RefersAt [] name mark) :
    ¬ (node label parts).RefersAt (i :: q) name' mark := by
  intro below
  obtain ⟨o, at_i, inPart⟩ := refersAt_cons.1 below
  have first : mark ∈ (label.refers?.map Prod.snd).toList := by simp [refersAt_nil.1 here]
  have second : mark ∈ marksAll parts := mem_marksAll.2 ⟨i, o, q, name', at_i, inPart⟩
  rw [marks, List.nodup_append] at distinct
  exact distinct.2.2 mark first mark second rfl

/-- Where no mark stands twice, a mark tells its reference. -/
theorem RefersAt.position_unique :
    ∀ {q q' : Position} {o : Outline ρ} {name name' : String}, o.marks.Nodup →
      o.RefersAt q name mark → o.RefersAt q' name' mark → q = q'
  | [], [], _, _, _, _, _, _ => rfl
  | [], j :: q', .node label parts, _, _, distinct, refers, refers' =>
    absurd refers' (not_refersAt_part distinct refers)
  | i :: q, [], .node label parts, _, _, distinct, refers, refers' =>
    absurd refers (not_refersAt_part distinct refers')
  | i :: q, j :: q', .node label parts, _, _, distinct, refers, refers' => by
    obtain ⟨o, at_i, inPart⟩ := refersAt_cons.1 refers
    obtain ⟨o', at_j, inPart'⟩ := refersAt_cons.1 refers'
    rw [marks, List.nodup_append] at distinct
    obtain rfl : i = j :=
      part_unique distinct.2.1 at_i at_j (mem_marks.2 ⟨_, _, inPart⟩) (mem_marks.2 ⟨_, _, inPart'⟩)
    obtain rfl : o = o' := Option.some.inj (at_i.symm.trans at_j)
    have inner : o.marks.Nodup := by
      rw [marksAll_eq_flatMap, List.nodup_flatMap] at distinct
      exact distinct.2.1.1 o (List.mem_of_getElem? at_i)
    rw [RefersAt.position_unique inner inPart inPart']

theorem RefersAt.name_unique {o : Outline ρ} {mark' : ρ} (refers : o.RefersAt q name mark)
    (refers' : o.RefersAt q name' mark') : name = name' := by
  obtain ⟨l, there, found⟩ := refers
  obtain ⟨l', there', found'⟩ := refers'
  obtain rfl : l = l' := Option.some.inj (there.symm.trans there')
  exact congrArg Prod.fst (Option.some.inj (found.symm.trans found'))

end Outline

/-! ## The marks of a program -/

namespace Outline

@[simp] theorem marks_node (label : Label ρ) (parts : List (Outline ρ)) :
    (node label parts).marks = (label.refers?.map Prod.snd).toList ++ marksAll parts := rfl

@[simp] theorem marksAll_nil : marksAll ([] : List (Outline ρ)) = [] := rfl

@[simp] theorem marksAll_cons (o : Outline ρ) (os : List (Outline ρ)) :
    marksAll (o :: os) = o.marks ++ marksAll os := rfl

theorem marksAll_append (os os' : List (Outline ρ)) :
    marksAll (os ++ os') = marksAll os ++ marksAll os' := by
  simp [marksAll_eq_flatMap]

theorem marksAll_parameters (params : List Name) :
    marksAll (parameters params : List (Outline ρ)) = [] := by
  simp [marksAll_eq_flatMap, parameters, Label.refers?]

@[simp] theorem marks_holding (name : String) (parts : List (Outline ρ)) :
    (holding name parts).marks = marksAll parts := rfl

end Outline

mutual

theorem Expr.marks_outline : ∀ e : Expr ρ, e.outline.marks = e.marks
  | .literal _ | .variable _ | .this .. | .super .. => rfl
  | .grouping e | .unary _ _ e | .get e _ | .assign _ e => by
    simp [Expr.outline, Expr.marks, Label.refers?, e.marks_outline]
  | .binary _ _ l r | .logical _ l r | .set l _ r => by
    simp [Expr.outline, Expr.marks, Label.refers?, l.marks_outline, r.marks_outline]
  | .call callee _ arguments => by
    simp [Expr.outline, Expr.marks, Label.refers?, callee.marks_outline,
      Expr.marksAll_outline arguments]

theorem Expr.marksAll_outline :
    ∀ es : List (Expr ρ), Outline.marksAll (Expr.outlineAll es) = Expr.marksAll es
  | [] => rfl
  | e :: es => by
    rw [Expr.outlineAll, Outline.marksAll, e.marks_outline, Expr.marksAll_outline es, Expr.marksAll]

end

theorem Expr.marks?_outline (e? : Option (Expr ρ)) :
    Outline.marksAll (Expr.outline? e?) = Expr.marks? e? := by
  cases e? with
  | none => rfl
  | some e => simp [Expr.outline?, Expr.marks?, e.marks_outline]

mutual

theorem Stmt.marks_outline : ∀ s : Stmt ρ, s.outline.marks = s.marks
  | .expression e | .print e => by
    simp [Stmt.outline, Stmt.marks, Label.refers?, e.marks_outline]
  | .declare _ e? => Expr.marks?_outline e?
  | .block body => Stmt.marksAll_outline body
  | .conditional c t none => by
    simp [Stmt.outline, Stmt.marks, Label.refers?, c.marks_outline, t.marks_outline]
  | .conditional c t (some e) => by
    simp [Stmt.outline, Stmt.marks, Label.refers?, c.marks_outline, t.marks_outline,
      e.marks_outline]
  | .loop c b => by
    simp [Stmt.outline, Stmt.marks, Label.refers?, c.marks_outline, b.marks_outline]
  | .function d => by
    simp [Stmt.outline, Stmt.marks, Label.refers?, d.marks_outline false]
  | .ret _ e? => Expr.marks?_outline e?
  | .classDecl _ none methods => by
    simp [Stmt.outline, Stmt.marks, Label.refers?, FunctionDecl.marksAll_outline methods]
  | .classDecl _ (some _) methods => by
    simp [Stmt.outline, Stmt.marks, Label.refers?, FunctionDecl.marksAll_outline methods]

theorem FunctionDecl.marks_outline (isInitializer : Bool) :
    ∀ d : FunctionDecl ρ, (d.outline isInitializer).marks = d.marks
  | ⟨_, params, body⟩ => by
    simp [FunctionDecl.outline, FunctionDecl.marks, Label.refers?, Outline.marksAll_append,
      Outline.marksAll_parameters, Stmt.marksAll_outline body]

theorem Stmt.marksAll_outline :
    ∀ ss : List (Stmt ρ), Outline.marksAll (Stmt.outlineAll ss) = Stmt.marksAll ss
  | [] => rfl
  | s :: ss => by
    rw [Stmt.outlineAll, Outline.marksAll, s.marks_outline, Stmt.marksAll_outline ss, Stmt.marksAll]

theorem FunctionDecl.marksAll_outline :
    ∀ ds : List (FunctionDecl ρ),
      Outline.marksAll (FunctionDecl.outlineAll ds) = FunctionDecl.marksAll ds
  | [] => rfl
  | d :: ds => by
    rw [FunctionDecl.outlineAll, Outline.marksAll, d.marks_outline,
      FunctionDecl.marksAll_outline ds, FunctionDecl.marksAll]

end

theorem Outline.marks_ofProgram (program : List (Stmt ρ)) :
    (Outline.ofProgram program).marks = Stmt.marksAll program :=
  Stmt.marksAll_outline program

/-! ## The places of a program -/

variable {scopes : Scopes}

mutual

theorem Expr.outline_locate : ∀ e : Expr ρ, (e.locate scopes).outline = e.outline.locate scopes
  | .literal _ | .variable _ | .this .. | .super .. => rfl
  | .grouping e | .unary _ _ e | .get e _ | .assign _ e =>
    congrArg (fun o => Outline.node _ [o]) e.outline_locate
  | .binary _ _ l r | .logical _ l r | .set l _ r => by
    have left := l.outline_locate
    have right := r.outline_locate
    rw [Expr.locate] at left right
    simp only [Expr.locate, Expr.mapMarks, Expr.outline, Outline.locate, Outline.locateAll,
      Label.scopesInside, l.outline_isExpression.scopesAfter, left, right]
    rfl
  | .call callee _ arguments => by
    have first := callee.outline_locate
    rw [Expr.locate] at first
    simp only [Expr.locate, Expr.mapMarks, Expr.outline, Outline.locate, Outline.locateAll,
      Label.scopesInside, callee.outline_isExpression.scopesAfter, first,
      Expr.outlineAll_locate arguments]
    rfl

theorem Expr.outlineAll_locate :
    ∀ es : List (Expr ρ),
      Expr.outlineAll (Expr.mapMarksAll (fun name mark => (mark, scopes.place name)) es) =
        Outline.locateAll scopes (Expr.outlineAll es)
  | [] => rfl
  | e :: es => by
    have first := e.outline_locate
    rw [Expr.locate] at first
    rw [Expr.mapMarksAll, Expr.outlineAll, Expr.outlineAll, Outline.locateAll, first,
      e.outline_isExpression.scopesAfter, Expr.outlineAll_locate es]

end

theorem Expr.outline?_locate (e? : Option (Expr ρ)) :
    Expr.outline? (e?.map (·.locate scopes)) = Outline.locateAll scopes (Expr.outline? e?) := by
  cases e? with
  | none => rfl
  | some e => exact congrArg (fun o => [o]) e.outline_locate

namespace Outline

theorem locateAll_append :
    ∀ (os os' : List (Outline ρ)) (scopes : Scopes),
      locateAll scopes (os ++ os') =
        locateAll scopes os ++ locateAll (scopesAfterAll scopes os) os'
  | [], _, _ => rfl
  | o :: os, os', scopes => by
    rw [List.cons_append, locateAll, locateAll_append os, locateAll, List.cons_append,
      scopesAfterAll]

theorem locateAll_parameters (params : List Name) :
    ∀ scopes : Scopes,
      locateAll scopes (parameters params : List (Outline ρ)) = parameters params := by
  induction params with
  | nil => exact fun _ => rfl
  | cons p ps ih => exact fun scopes => congrArg (node (.parameter p) [] :: ·) (ih _)

end Outline

theorem FunctionDecl.scopesAfter_outline (isInitializer : Bool) :
    ∀ d : FunctionDecl ρ, (d.outline isInitializer).scopesAfter scopes = scopes
  | ⟨_, _, _⟩ => rfl

mutual

/-- Resolution gives the references of a statement the places that the walk gives them. -/
theorem Stmt.outline_locate :
    ∀ (s : Stmt ρ) (scopes : Scopes), (s.locate scopes).outline = s.outline.locate scopes
  | .expression e, scopes | .print e, scopes =>
    congrArg (fun o => Outline.node .statement [o]) e.outline_locate
  | .declare name e?, scopes =>
    congrArg (Outline.node (.variable name)) (Expr.outline?_locate e?)
  | .block body, scopes => congrArg (Outline.node .scope) (Stmt.outlineAll_locate body scopes.enter)
  | .conditional c t none, scopes => by
    simp only [Stmt.locate, Stmt.outline, Outline.locate, Outline.locateAll, Label.scopesInside,
      c.outline_locate, t.outline_locate, c.outline_isExpression.scopesAfter]
    rfl
  | .conditional c t (some e), scopes => by
    simp only [Stmt.locate, Stmt.outline, Outline.locate, Outline.locateAll, Label.scopesInside,
      c.outline_locate, t.outline_locate, e.outline_locate, c.outline_isExpression.scopesAfter,
      t.scopesAfter_outline]
    rfl
  | .loop c b, scopes => by
    simp only [Stmt.locate, Stmt.outline, Outline.locate, Outline.locateAll, Label.scopesInside,
      c.outline_locate, b.outline_locate, c.outline_isExpression.scopesAfter]
    rfl
  | .function ⟨name, params, body⟩, scopes =>
    congrArg (fun o => Outline.node (.function name) [o])
      (FunctionDecl.outline_locate false ⟨name, params, body⟩ (scopes.define name.text))
  | .ret line e?, scopes => by
    simp only [Stmt.locate, Stmt.outline, Outline.locate, Label.scopesInside,
      Expr.outline?_locate e?, Option.isSome_map]
    rfl
  | .classDecl name none methods, scopes =>
    congrArg (fun os => Outline.node (.classDecl name none) [.holding thisName os])
      (FunctionDecl.outlineAll_locate methods _)
  | .classDecl name (some superclass) methods, scopes =>
    congrArg
      (fun os => Outline.node (.classDecl name (some superclass.name))
        [.node (.inherits (superclass.locate (scopes.define name.text))) [],
          .holding superName [.holding thisName os]])
      (FunctionDecl.outlineAll_locate methods _)

theorem FunctionDecl.outline_locate (isInitializer : Bool) :
    ∀ (d : FunctionDecl ρ) (scopes : Scopes),
      (d.locate scopes).outline isInitializer = (d.outline isInitializer).locate scopes
  | ⟨name, params, body⟩, scopes => by
    simp only [FunctionDecl.locate, FunctionDecl.outline, Outline.locate, Label.scopesInside,
      Outline.locateAll_append, Outline.locateAll_parameters, Outline.scopesAfter_parameters,
      Stmt.outlineAll_locate body]
    rfl

theorem Stmt.outlineAll_locate :
    ∀ (ss : List (Stmt ρ)) (scopes : Scopes),
      Stmt.outlineAll (Stmt.locateAll scopes ss) = Outline.locateAll scopes (Stmt.outlineAll ss)
  | [], _ => rfl
  | s :: ss, scopes => by
    rw [Stmt.locateAll, Stmt.outlineAll, Stmt.outlineAll, Outline.locateAll, s.outline_locate,
      s.scopesAfter_outline, Stmt.outlineAll_locate ss]

theorem FunctionDecl.outlineAll_locate :
    ∀ (ds : List (FunctionDecl ρ)) (scopes : Scopes),
      FunctionDecl.outlineAll (FunctionDecl.locateAll scopes ds) =
        Outline.locateAll scopes (FunctionDecl.outlineAll ds)
  | [], _ => rfl
  | ⟨name, params, body⟩ :: ds, scopes => by
    rw [FunctionDecl.locateAll, FunctionDecl.outlineAll, FunctionDecl.outlineAll,
      Outline.locateAll, FunctionDecl.outline_locate, FunctionDecl.scopesAfter_outline,
      FunctionDecl.outlineAll_locate ds]
    rfl

end

theorem Outline.ofProgram_locate (program : List (Stmt ρ)) (scopes : Scopes) :
    Outline.ofProgram (Stmt.locateAll scopes program) = (Outline.ofProgram program).locate scopes :=
  congrArg (Outline.node .statement) (Stmt.outlineAll_locate program scopes)

end Lox
