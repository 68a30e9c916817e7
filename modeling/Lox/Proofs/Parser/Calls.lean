import Lox.Proofs.Parser.Grammar
import Lox.Proofs.Scope.Standing

/-!
# Where calls close

A call carries a line: it is that of the parenthesis behind its arguments. `calls` lists the lines of
the calls in a tree, each with the number of arguments, and `closes` says of all that a derived tree
has that the tokens have a list of as many arguments between parentheses, the closing one on this
line.
-/

namespace Lox

section

variable {ρ σ : Type}

mutual

/-- The calls in an expression: their lines and how many arguments they have. -/
def Expr.calls : Expr ρ → List (Nat × Nat)
  | .literal _ | .variable _ | .this .. | .super .. => []
  | .grouping inner => inner.calls
  | .unary _ _ operand => operand.calls
  | .binary _ _ left right => left.calls ++ right.calls
  | .logical _ left right => left.calls ++ right.calls
  | .assign _ value => value.calls
  | .call callee line arguments =>
    (line, arguments.length) :: callee.calls ++ Expr.callsAll arguments
  | .get object _ => object.calls
  | .set object _ value => object.calls ++ value.calls

/-- The calls in expressions. -/
def Expr.callsAll : List (Expr ρ) → List (Nat × Nat)
  | [] => []
  | e :: es => e.calls ++ Expr.callsAll es

end

/-- The calls in an expression that may be missing. -/
def Expr.calls? : Option (Expr ρ) → List (Nat × Nat)
  | none => []
  | some e => e.calls

mutual

/-- The calls in a statement. -/
def Stmt.calls : Stmt ρ → List (Nat × Nat)
  | .expression value => value.calls
  | .print value => value.calls
  | .declare _ initializer => Expr.calls? initializer
  | .block body => Stmt.callsAll body
  | .conditional condition thenBranch none => condition.calls ++ thenBranch.calls
  | .conditional condition thenBranch (some elseBranch) =>
    condition.calls ++ thenBranch.calls ++ elseBranch.calls
  | .loop condition body => condition.calls ++ body.calls
  | .function ⟨_, _, body⟩ => Stmt.callsAll body
  | .ret _ value => Expr.calls? value
  | .classDecl _ _ methods => FunctionDecl.callsAll methods

/-- The calls in statements. -/
def Stmt.callsAll : List (Stmt ρ) → List (Nat × Nat)
  | [] => []
  | s :: ss => s.calls ++ Stmt.callsAll ss

/-- The calls in methods. -/
def FunctionDecl.callsAll : List (FunctionDecl ρ) → List (Nat × Nat)
  | [] => []
  | ⟨_, _, body⟩ :: ds => Stmt.callsAll body ++ FunctionDecl.callsAll ds

end

/-! ## Marks -/

theorem Expr.length_mapMarksAll (f : String → ρ → σ) (es : List (Expr ρ)) :
    (Expr.mapMarksAll f es).length = es.length := by
  rw [Expr.mapMarksAll_eq_map, List.length_map]

mutual

theorem Expr.calls_mapMarks (f : String → ρ → σ) : ∀ e : Expr ρ, (e.mapMarks f).calls = e.calls
  | .literal _ | .variable _ | .this .. | .super .. => rfl
  | .grouping e | .unary _ _ e | .assign _ e | .get e _ => e.calls_mapMarks f
  | .binary _ _ l r | .logical _ l r | .set l _ r => by
    simp only [Expr.mapMarks, Expr.calls, l.calls_mapMarks f, r.calls_mapMarks f]
  | .call callee line arguments => by
    simp only [Expr.mapMarks, Expr.calls, callee.calls_mapMarks f,
      Expr.callsAll_mapMarks f arguments, Expr.length_mapMarksAll]

theorem Expr.callsAll_mapMarks (f : String → ρ → σ) : ∀ es : List (Expr ρ),
    Expr.callsAll (Expr.mapMarksAll f es) = Expr.callsAll es
  | [] => rfl
  | e :: es => by
    simp only [Expr.mapMarksAll, Expr.callsAll, e.calls_mapMarks f, Expr.callsAll_mapMarks f es]

end

theorem Expr.calls?_mapMarks (f : String → ρ → σ) (e? : Option (Expr ρ)) :
    Expr.calls? (e?.map (·.mapMarks f)) = Expr.calls? e? := by
  cases e? with
  | none => rfl
  | some e => exact e.calls_mapMarks f

mutual

theorem Stmt.calls_mapMarks (f : String → ρ → σ) : ∀ s : Stmt ρ, (s.mapMarks f).calls = s.calls
  | .expression e | .print e => e.calls_mapMarks f
  | .declare _ e? | .ret _ e? => Expr.calls?_mapMarks f e?
  | .block body | .function ⟨_, _, body⟩ => Stmt.callsAll_mapMarks f body
  | .conditional c t none => by
    simp only [Stmt.mapMarks, Stmt.calls, c.calls_mapMarks f, t.calls_mapMarks f]
  | .conditional c t (some e) => by
    simp only [Stmt.mapMarks, Stmt.calls, c.calls_mapMarks f, t.calls_mapMarks f, e.calls_mapMarks f]
  | .loop c b => by
    simp only [Stmt.mapMarks, Stmt.calls, c.calls_mapMarks f, b.calls_mapMarks f]
  | .classDecl _ _ methods => FunctionDecl.callsAll_mapMarks f methods

theorem Stmt.callsAll_mapMarks (f : String → ρ → σ) : ∀ ss : List (Stmt ρ),
    Stmt.callsAll (Stmt.mapMarksAll f ss) = Stmt.callsAll ss
  | [] => rfl
  | s :: ss => by
    simp only [Stmt.mapMarksAll, Stmt.callsAll, s.calls_mapMarks f, Stmt.callsAll_mapMarks f ss]

theorem FunctionDecl.callsAll_mapMarks (f : String → ρ → σ) : ∀ ds : List (FunctionDecl ρ),
    FunctionDecl.callsAll (FunctionDecl.mapMarksAll f ds) = FunctionDecl.callsAll ds
  | [] => rfl
  | ⟨_, _, body⟩ :: ds => by
    simp only [FunctionDecl.mapMarksAll, FunctionDecl.mapMarks, FunctionDecl.callsAll,
      Stmt.callsAll_mapMarks f body, FunctionDecl.callsAll_mapMarks f ds]

end

end

/-! ## Parts -/

/-- The calls in a part of a program. -/
def Node.calls : Node → List (Nat × Nat)
  | .expression e => e.calls
  | .statement s => s.calls
  | .statements ss => Stmt.callsAll ss

theorem Expr.calls_subset_all {e : Expr Place} {es : List (Expr Place)} (mem : e ∈ es) :
    e.calls ⊆ Expr.callsAll es := by
  induction es with
  | nil => cases mem
  | cons first rest ih =>
    rcases List.mem_cons.1 mem with rfl | mem
    · exact List.subset_append_left _ _
    · exact List.subset_append_of_subset_right _ (ih mem)

theorem FunctionDecl.calls_subset_all {d : FunctionDecl Place} {ds : List (FunctionDecl Place)}
    (mem : d ∈ ds) : Stmt.callsAll d.body ⊆ FunctionDecl.callsAll ds := by
  induction ds with
  | nil => cases mem
  | cons first rest ih =>
    obtain ⟨name, params, body⟩ := first
    rcases List.mem_cons.1 mem with rfl | mem
    · exact List.subset_append_left _ _
    · exact List.subset_append_of_subset_right _ (ih mem)

theorem Expr.calls_operand {e operand : Expr Place} (mem : operand ∈ e.operands) :
    operand.calls ⊆ e.calls := by
  cases e with
  | literal | «variable» | this | super => cases mem
  | grouping inner => exact List.mem_singleton.1 mem ▸ List.Subset.refl _
  | unary op line inner => exact List.mem_singleton.1 mem ▸ List.Subset.refl _
  | assign target value => exact List.mem_singleton.1 mem ▸ List.Subset.refl _
  | get object property => exact List.mem_singleton.1 mem ▸ List.Subset.refl _
  | binary op line left right | logical op left right | set object property right =>
    rcases List.mem_pair.1 mem with rfl | rfl
    · exact List.subset_append_left _ _
    · exact List.subset_append_right _ _
  | call callee line arguments =>
    apply List.subset_cons_of_subset
    rcases List.mem_cons.1 mem with rfl | isArgument
    · exact List.subset_append_left _ _
    · exact List.subset_append_of_subset_right _ (Expr.calls_subset_all isArgument)

theorem Stmt.calls_part {s : Stmt Place} {part : Node} {c inner : Context}
    (mem : (inner, part) ∈ s.parts c) : part.calls ⊆ s.calls := by
  cases s with
  | expression value | print value =>
    cases List.mem_singleton.1 mem
    exact List.Subset.refl _
  | block body =>
    cases List.mem_singleton.1 mem
    exact List.Subset.refl _
  | function d =>
    obtain ⟨name, params, body⟩ := d
    cases List.mem_singleton.1 mem
    exact List.Subset.refl _
  | declare name value | ret line value =>
    cases value with
    | none => cases mem
    | some e =>
      cases List.mem_singleton.1 mem
      exact List.Subset.refl _
  | loop condition body =>
    rcases List.mem_pair.1 mem with same | same <;> cases same
    · exact List.subset_append_left _ _
    · exact List.subset_append_right _ _
  | conditional condition thenBranch elseBranch =>
    cases elseBranch with
    | none =>
      rcases List.mem_pair.1 mem with same | same <;> cases same
      · exact List.subset_append_left _ _
      · exact List.subset_append_right _ _
    | some other =>
      rcases List.mem_cons.1 mem with same | mem
      · cases same
        exact List.subset_append_of_subset_left _ (List.subset_append_left _ _)
      rcases List.mem_pair.1 mem with same | same <;> cases same
      · exact List.subset_append_of_subset_left _ (List.subset_append_right _ _)
      · exact List.subset_append_right _ _
  | classDecl name superclass methods =>
    obtain ⟨d, isMethod, same⟩ := List.mem_map.1 mem
    cases same
    exact FunctionDecl.calls_subset_all isMethod

/-- The calls in a part are among those of the whole. -/
theorem Node.calls_subset {n part : Node} {c inner : Context} (mem : (inner, part) ∈ n.parts c) :
    part.calls ⊆ n.calls := by
  cases n with
  | expression e =>
    obtain ⟨operand, isOperand, same⟩ := List.mem_map.1 mem
    cases same
    exact Expr.calls_operand isOperand
  | statement s => exact Stmt.calls_part mem
  | statements ss =>
    cases ss with
    | nil => cases mem
    | cons s ss =>
      rcases List.mem_pair.1 mem with same | same <;> cases same
      · exact List.subset_append_left _ _
      · exact List.subset_append_right _ _

namespace Grammar

/-! ## Derivations -/

/-- Between parentheses in the tokens there are as many arguments, and the closing one is on the
line. -/
def Closes (ts : List Token) (call : Nat × Nat) : Prop :=
  ∃ opening inner closing, (opening :: inner ++ [closing]) <:+: ts ∧
    opening.kind = .symbol .leftParen ∧ closing.kind = .symbol .rightParen ∧
    closing.line = call.1 ∧ ((inner = [] ∧ call.2 = 0) ∨
      ∃ values, Arguments inner values ∧ values.length = call.2)

theorem Level.join?_calls {l : Level} {t : Token} {left right e : Expr Unit}
    (h : l.join? t left right = some e) : e.calls = left.calls ++ right.calls := by
  obtain ⟨op, rfl⟩ | ⟨op, rfl⟩ := Level.join?_eq_some h
  · rfl
  · rfl

variable {all ts ts' : List Token} {t : Token}

theorem infix_tail (h : t :: ts <:+: all) : ts <:+: all := (List.suffix_cons t ts).isInfix.trans h

theorem infix_left (h : ts ++ ts' <:+: all) : ts <:+: all :=
  (List.prefix_append ts ts').isInfix.trans h

theorem infix_right (h : ts ++ ts' <:+: all) : ts' <:+: all :=
  (List.suffix_append ts ts').isInfix.trans h

mutual

theorem Expression.closes : ∀ {ts : List Token} {e : Expr Unit}, Expression ts e → ts <:+: all →
    ∀ c ∈ e.calls, Closes all c
  | _, _, .assignVariable _ _ value, h => value.closes (infix_tail (infix_tail h))
  | _, _, .assignProperty object _ _ _ value, h => by
    have last := value.closes (infix_tail (infix_tail (infix_tail (infix_right h))))
    exact List.forall_mem_append.2 ⟨object.closes (infix_left h), last⟩
  | _, _, .operation o, h => o.closes h

theorem Operation.closes : ∀ {l : Level} {ts : List Token} {e : Expr Unit}, Operation l ts e →
    ts <:+: all → ∀ c ∈ e.calls, Closes all c
  | _, _, _, .joined _ first rest, h =>
    rest.closes (infix_right h) (first.closes (infix_left h))
  | _, _, _, .not _ operand, h => operand.closes (infix_tail h)
  | _, _, _, .negate _ operand, h => operand.closes (infix_tail h)
  | _, _, _, .call c, h => c.closes h

theorem Joined.closes : ∀ {l : Level} {left : Expr Unit} {ts : List Token} {e : Expr Unit},
    Joined l left ts e → ts <:+: all → (∀ c ∈ left.calls, Closes all c) →
      ∀ c ∈ e.calls, Closes all c
  | _, _, _, _, .done, _, before => before
  | _, _, _, _, .more join right rest, h, before => by
    apply rest.closes (infix_right h)
    rw [Level.join?_calls join]
    exact List.forall_mem_append.2 ⟨before, right.closes (infix_tail (infix_left h))⟩

theorem Call.closes : ∀ {ts : List Token} {e : Expr Unit}, Call ts e → ts <:+: all →
    ∀ c ∈ e.calls, Closes all c
  | _, _, .of object suffixes, h =>
    suffixes.closes (infix_right h) (object.closes (infix_left h))

theorem Suffixes.closes : ∀ {object : Expr Unit} {ts : List Token} {e : Expr Unit},
    Suffixes object ts e → ts <:+: all → (∀ c ∈ object.calls, Closes all c) →
      ∀ c ∈ e.calls, Closes all c
  | _, _, _, .done, _, before => before
  | _, _, _, .call opens closes rest, h, before => by
    apply rest.closes (infix_tail (infix_tail h))
    refine List.forall_mem_cons.2 ⟨⟨_, [], _, ?_, opens, closes, rfl, .inl ⟨rfl, rfl⟩⟩, ?_⟩
    · exact infix_left h
    · simpa [Expr.callsAll] using before
  | _, _, _, .callWith opens arguments _ closes rest, h, before => by
    apply rest.closes (infix_tail (infix_right h))
    have inside := arguments.closes (infix_tail (infix_left h))
    refine List.forall_mem_cons.2
      ⟨⟨_, _, _, ?_, opens, closes, rfl, .inr ⟨_, arguments, rfl⟩⟩,
        List.forall_mem_append.2 ⟨before, inside⟩⟩
    rw [List.append_cons] at h
    exact infix_left h
  | _, _, _, .property _ _ rest, h, before => rest.closes (infix_tail (infix_tail h)) before

theorem Arguments.closes : ∀ {ts : List Token} {es : List (Expr Unit)}, Arguments ts es →
    ts <:+: all → ∀ c ∈ Expr.callsAll es, Closes all c
  | _, _, .last e, h => by
    simpa [Expr.callsAll] using e.closes h
  | _, _, .more e _ rest, h =>
    List.forall_mem_append.2 ⟨e.closes (infix_left h), rest.closes (infix_tail (infix_right h))⟩

theorem Primary.closes : ∀ {ts : List Token} {e : Expr Unit}, Primary ts e → ts <:+: all →
    ∀ c ∈ e.calls, Closes all c
  | _, _, .grouping _ e _, h => e.closes (infix_tail (infix_left h))
  | _, _, .number _, _ | _, _, .string _, _ | _, _, .true _, _ | _, _, .false _, _
  | _, _, .nil _, _ | _, _, .this _, _ | _, _, .name _, _ | _, _, .super _ _ _, _ =>
    fun _ none => by cases none

end

theorem Expression?.closes {e? : Option (Expr Unit)} (h : Expression? ts e?) (inside : ts <:+: all) :
    ∀ c ∈ Expr.calls? e?, Closes all c := by
  cases h with
  | none =>
    intro c mem
    cases mem
  | some e => exact e.closes inside

theorem VariableDecl.closes {s : Stmt Unit} (h : VariableDecl ts s) (inside : ts <:+: all) :
    ∀ c ∈ s.calls, Closes all c := by
  cases h with
  | plain =>
    intro c mem
    cases mem
  | initialized _ _ _ e _ => exact e.closes (infix_tail (infix_tail (infix_tail (infix_left inside))))

theorem ExpressionStmt.closes {s : Stmt Unit} (h : ExpressionStmt ts s) (inside : ts <:+: all) :
    ∀ c ∈ s.calls, Closes all c := by
  cases h with
  | of e _ => exact e.closes (infix_left inside)

theorem ForInitializer.closes {initializer : Option (Stmt Unit)} (h : ForInitializer ts initializer)
    (inside : ts <:+: all) : ∀ s ∈ initializer, ∀ c ∈ s.calls, Closes all c := by
  intro s mem
  cases h with
  | none => cases mem
  | «variable» d =>
    cases mem
    exact d.closes inside
  | expression e =>
    cases mem
    exact e.closes inside

/-- The calls in a `for` statement are those in its clauses and its body. -/
theorem forTree_calls {initializer : Option (Stmt Unit)} {condition increment : Option (Expr Unit)}
    {body : Stmt Unit} {P : Nat × Nat → Prop} (first : ∀ s ∈ initializer, ∀ c ∈ s.calls, P c)
    (second : ∀ c ∈ Expr.calls? condition, P c) (third : ∀ c ∈ Expr.calls? increment, P c)
    (inner : ∀ c ∈ body.calls, P c) :
    ∀ c ∈ (forTree initializer condition increment body).calls, P c := by
  have test : ∀ c ∈ (condition.getD (.literal (.boolean true))).calls, P c := by
    cases condition with
    | none =>
      intro c mem
      cases mem
    | some e => exact second
  have round : ∀ c ∈ (forBody body increment).calls, P c := by
    cases increment with
    | none => exact inner
    | some e =>
      refine List.forall_mem_append.2 ⟨inner, ?_⟩
      rw [Stmt.callsAll, Stmt.callsAll, List.append_nil]
      exact third
  have loop := List.forall_mem_append.2 ⟨test, round⟩
  cases initializer with
  | none => exact loop
  | some s =>
    refine List.forall_mem_append.2 ⟨first s rfl, ?_⟩
    rw [Stmt.callsAll, Stmt.callsAll, List.append_nil]
    exact loop

section

variable {nearest : Bool}

mutual

theorem Declaration.closes : ∀ {ts : List Token} {s : Stmt Unit}, Declaration nearest ts s →
    ts <:+: all → ∀ c ∈ s.calls, Closes all c
  | _, _, .classDecl _ _ _ _ methods _, h =>
    methods.closes (infix_tail (infix_right (infix_left h)))
  | _, .function ⟨_, _, _⟩, .function _ d, h => d.closes (infix_tail h)
  | _, _, .variable d, h => d.closes h
  | _, _, .statement s, h => s.closes h

theorem Declarations.closes : ∀ {ts : List Token} {ss : List (Stmt Unit)},
    Declarations nearest ts ss → ts <:+: all → ∀ c ∈ Stmt.callsAll ss, Closes all c
  | _, _, .none, _ => fun _ none => by cases none
  | _, _, .more first rest, h =>
    List.forall_mem_append.2 ⟨first.closes (infix_left h), rest.closes (infix_right h)⟩

theorem Block.closes : ∀ {ts : List Token} {ss : List (Stmt Unit)}, Block nearest ts ss →
    ts <:+: all → ∀ c ∈ Stmt.callsAll ss, Closes all c
  | _, _, .of _ items _, h => items.closes (infix_tail (infix_left h))

theorem Function.closes : ∀ {ts : List Token} {d : FunctionDecl Unit}, Function nearest ts d →
    ts <:+: all → ∀ c ∈ Stmt.callsAll d.body, Closes all c
  | _, _, .of _ _ _ _ body, h => body.closes (infix_tail (infix_right h))

theorem Functions.closes : ∀ {ts : List Token} {ds : List (FunctionDecl Unit)},
    Functions nearest ts ds → ts <:+: all → ∀ c ∈ FunctionDecl.callsAll ds, Closes all c
  | _, _, .none, _ => fun _ none => by cases none
  | _, ⟨_, _, _⟩ :: _, .more first rest, h =>
    List.forall_mem_append.2 ⟨first.closes (infix_left h), rest.closes (infix_right h)⟩

theorem Statement.closes : ∀ {isOpen : Bool} {ts : List Token} {s : Stmt Unit},
    Statement nearest isOpen ts s → ts <:+: all → ∀ c ∈ s.calls, Closes all c
  | _, _, _, .expression e, h => e.closes h
  | _, _, _, .forStmt _ _ first second _ third _ body, h => by
    have clauses := infix_left (infix_left h)
    apply forTree_calls
    · exact first.closes (infix_tail (infix_tail (infix_left clauses)))
    · exact second.closes (infix_right clauses)
    · exact third.closes (infix_tail (infix_right (infix_left h)))
    · exact body.closes (infix_tail (infix_right h))
  | _, _, _, .ifThen _ _ condition _ s, h =>
    List.forall_mem_append.2 ⟨condition.closes (infix_tail (infix_tail (infix_left h))),
      s.closes (infix_tail (infix_right h))⟩
  | _, _, _, .ifElse _ _ condition _ s _ _ s', h =>
    List.forall_mem_append.2 ⟨List.forall_mem_append.2
      ⟨condition.closes (infix_tail (infix_tail (infix_left (infix_left h)))),
        s.closes (infix_tail (infix_right (infix_left h)))⟩, s'.closes (infix_tail (infix_right h))⟩
  | _, _, _, .print _ e _, h => e.closes (infix_tail (infix_left h))
  | _, _, _, .ret _ value _, h => value.closes (infix_tail (infix_left h))
  | _, _, _, .whileStmt _ _ condition _ body, h =>
    List.forall_mem_append.2 ⟨condition.closes (infix_tail (infix_tail (infix_left h))),
      body.closes (infix_tail (infix_right h))⟩
  | _, _, _, .block b, h => b.closes h

end

end

end Grammar

end Lox
