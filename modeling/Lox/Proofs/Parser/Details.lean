import Lox.Proofs.Parser.Register

/-!
# The details of parsed trees

Each rule of a parse `Answers` for the details of what it gives. They come from two steps: a token
that is taken may say what a name or a literal is, and a reference that has been read gets its
number. All else that the rules do is put trees together: the target of an assignment is the
reference that was read as a variable, the step of a `for` statement stands in a block behind its
body, and a list that gets too long is an error.
-/

namespace Lox

namespace Parser

variable {phase : Phase} {given : List (Detail RefId)}

/-- What the rules for the rest of the tokens give. -/
structure Rules.Answer (r : Rules) : Prop where
  expression {phase : Phase} {given : List (Detail RefId)} :
    Answers phase given r.expression Expr.details
  unary {phase : Phase} {given : List (Detail RefId)} : Answers phase given r.unary Expr.details
  statement {phase : Phase} {given : List (Detail RefId)} :
    Answers phase given r.statement Stmt.branchDetails
  declaration {phase : Phase} {given : List (Detail RefId)} :
    Answers phase given r.declaration fun s? => Stmt.detailsAll s?.toList

/-! ## Expressions -/

theorem chain_answers {operator : Kind → Option BinaryOp} {operand : Parser (Expr RefId)}
    (hr : ∀ {phase given}, Answers phase given operand Expr.details) (n : Nat) {left : Expr RefId}
    (known : left.details ⊆ given) :
    Answers phase given (chain operator operand n left) Expr.details := by
  induction n generalizing left given phase with
  | zero => exact answers_pure known
  | succ n ih =>
    refine answers_peek.bind fun t => ?_
    cases operator t.kind with
    | none => exact answers_pure known
    | some op =>
      refine answers_advance.bind fun token => hr.bind fun right => ih ?_
      grind [Expr.details]

theorem logicalChain_answers {keyword : Keyword} {op : LogicalOp} {operand : Parser (Expr RefId)}
    (hr : ∀ {phase given}, Answers phase given operand Expr.details) (n : Nat) {left : Expr RefId}
    (known : left.details ⊆ given) :
    Answers phase given (logicalChain keyword op operand n left) Expr.details := by
  induction n generalizing left given phase with
  | zero => exact answers_pure known
  | succ n ih =>
    refine (answers_acceptKeyword keyword).bind fun taken => .ite ?_ (answers_pure known)
    refine hr.bind fun right => ih ?_
    grind [Expr.details]

variable {r : Rules} (hr : Rules.Answer r)
include hr

theorem arguments_answers (n : Nat) {seen : List (Expr RefId)}
    (known : .list seen.length :: Expr.detailsAll seen ⊆ given) :
    Answers phase given (arguments r n seen) fun es => .list es.length :: Expr.detailsAll es := by
  induction n generalizing seen given phase with
  | zero => exact answers_pure (by grind)
  | succ n ih =>
    refine .counted (hr.expression.bind fun e => ?_)
    refine (answers_acceptSymbol .comma).bind fun _ => .ite (ih ?_) (answers_pure ?_)
    all_goals grind [Expr.detailsAll]

theorem callOf_answers (n : Nat) {callee : Expr RefId} (known : callee.details ⊆ given) :
    Answers phase given (callOf n r callee) Expr.details := by
  refine .knowing (d := .list 0) ?_ fun _ _ _ => Nat.zero_le _
  refine (answers_checkSymbol .rightParen).bind fun _ => ?_
  refine .choose (answers_pure ?_) (arguments_answers hr n ?_) fun es => ?_
  · simp [Expr.detailsAll]
  · simp [Expr.detailsAll]
  · exact (answers_expectSymbol _ _).bind fun _ => answers_pure (by grind [Expr.details])

theorem suffixes_answers (n : Nat) {object : Expr RefId} (known : object.details ⊆ given) :
    Answers phase given (suffixes r n object) Expr.details := by
  induction n generalizing object given phase with
  | zero => exact answers_pure known
  | succ n ih =>
    refine (answers_acceptSymbol .leftParen).bind fun _ => .ite ?_ ?_
    · exact (callOf_answers hr n known).bind fun e => ih (List.subset_append_left _ _)
    · refine (answers_acceptSymbol .dot).bind fun _ => .ite ?_ (answers_pure known)
      exact (answers_expectName _).bind fun property => ih (by grind [Expr.details])

omit hr in
theorem superMethod_answers (line : Nat) :
    Answers (.behind .super ⟨superName, line⟩) given (superMethod line) Expr.details := by
  refine .symbolBehind fun _ => .nameBehind fun method => .fresh fun id => ?_
  exact answers_pure (by grind [Expr.details])

theorem grouping_answers : Answers phase given (grouping r) Expr.details :=
  hr.expression.bind fun _ => (answers_expectSymbol _ _).bind fun _ =>
    answers_pure (List.subset_append_left _ _)

omit hr in
/-- A literal that holds anyway. -/
theorem constant_answers {value : Literal}
    (holds : ∀ {tokens : List Token} {firstRef : RefId} (register : Register tokens firstRef)
      (clean : Prop), (Detail.literal value).Holds register clean) :
    Answers phase given (advance >>= fun _ => pure (.literal value)) Expr.details :=
  answers_advance.bind fun _ => .knowing (answers_pure (by simp [Expr.details])) holds

/-- The token that a primary expression begins with says what is read: this is where references are
numbered and where literals come from. -/
theorem primary_answers : Answers phase given (primary r) Expr.details := by
  refine .peek fun t => ?_
  split
  case h_1 | h_2 | h_3 => exact constant_answers fun _ _ => trivial
  case h_4 value kind =>
    refine .takeDetail (d := .literal (.number value)) (Token.isEnd_of_kind kind rfl) ?_ ?_
    · exact fun _ _ mem => ⟨t, mem, kind⟩
    · exact answers_pure (by simp [Expr.details])
  case h_5 value kind =>
    refine .takeDetail (d := .literal (.string value)) (Token.isEnd_of_kind kind rfl) ?_ ?_
    · exact fun _ _ mem => ⟨t, mem, kind⟩
    · exact answers_pure (by simp [Expr.details])
  case h_6 kind =>
    have reads : RefSort.this.Reads t ⟨thisName, t.line⟩ := ⟨kind, rfl⟩
    refine .take (Token.isEnd_of_kind kind rfl) reads ?_
    exact .fresh fun id => answers_pure (by simp [Expr.details])
  case h_7 kind =>
    have reads : RefSort.super.Reads t ⟨superName, t.line⟩ := ⟨kind, rfl⟩
    exact .take (Token.isEnd_of_kind kind rfl) reads (superMethod_answers _)
  case h_8 kind =>
    have reads : RefSort.variable.Reads t t.asName := ⟨kind, rfl⟩
    refine .take (Token.isEnd_of_kind kind rfl) reads ?_
    exact .reference fun id => answers_pure (by simp [Expr.details])
  case h_9 => exact answers_advance.bind fun _ => grouping_answers hr
  case h_10 => exact answers_failHere _

theorem call_answers (n : Nat) : Answers phase given (call n r) Expr.details :=
  (primary_answers hr).bind fun _ => suffixes_answers hr n (List.subset_append_left _ _)

theorem unary_answers (n : Nat) : Answers phase given (unary n r) Expr.details := by
  refine answers_peek.bind fun t => ?_
  split
  · exact answers_advance.bind fun _ => hr.unary.bind fun _ =>
      answers_pure (List.subset_append_left _ _)
  · exact call_answers hr n

theorem factor_answers (n : Nat) : Answers phase given (factor n r) Expr.details :=
  (unary_answers hr n).bind fun _ =>
    chain_answers (unary_answers hr n) n (List.subset_append_left _ _)

theorem term_answers (n : Nat) : Answers phase given (term n r) Expr.details :=
  (factor_answers hr n).bind fun _ =>
    chain_answers (factor_answers hr n) n (List.subset_append_left _ _)

theorem comparison_answers (n : Nat) : Answers phase given (comparison n r) Expr.details :=
  (term_answers hr n).bind fun _ =>
    chain_answers (term_answers hr n) n (List.subset_append_left _ _)

theorem equality_answers (n : Nat) : Answers phase given (equality n r) Expr.details :=
  (comparison_answers hr n).bind fun _ =>
    chain_answers (comparison_answers hr n) n (List.subset_append_left _ _)

theorem conjunction_answers (n : Nat) : Answers phase given (conjunction n r) Expr.details :=
  (equality_answers hr n).bind fun _ =>
    logicalChain_answers (equality_answers hr n) n (List.subset_append_left _ _)

theorem disjunction_answers (n : Nat) : Answers phase given (disjunction n r) Expr.details :=
  (conjunction_answers hr n).bind fun _ =>
    logicalChain_answers (conjunction_answers hr n) n (List.subset_append_left _ _)

omit hr in
/-- A target has the details of what it was read as. -/
theorem assignTo_answers {target value : Expr RefId} {equals : Token}
    (known : target.details ++ value.details ⊆ given) :
    Answers phase given (assignTo target equals value) Expr.details := by
  unfold assignTo
  split
  · exact answers_pure known
  · exact answers_pure known
  · exact (answers_report _ _).bind fun _ =>
      answers_pure (List.Subset.trans (List.subset_append_left _ _) known)

theorem assignment_answers (n : Nat) : Answers phase given (assignment n r) Expr.details := by
  refine (disjunction_answers hr n).bind fun target => ?_
  refine (answers_acceptSymbol .equal).bind fun _ => .ite ?_ ?_
  · exact answers_previous.bind fun equals => hr.expression.bind fun value =>
      assignTo_answers (by grind)
  · exact answers_pure (List.subset_append_left _ _)

/-! ## Statements -/

theorem blockItems_answers (n : Nat) {seen : List (Stmt RefId)}
    (known : Stmt.detailsAll seen ⊆ given) :
    Answers phase given (blockItems r n seen) Stmt.detailsAll := by
  induction n generalizing seen given phase with
  | zero => exact answers_pure (by grind)
  | succ n ih =>
    refine (answers_checkSymbol .rightBrace).bind fun _ => answers_atEnd.bind fun _ => .ite ?_ ?_
    · exact answers_pure (by grind)
    · refine hr.declaration.bind fun s? => ?_
      cases s? with
      | none => exact ih known
      | some s => exact ih (by grind [Stmt.detailsAll])

theorem block_answers (n : Nat) : Answers phase given (block n r) Stmt.detailsAll :=
  (blockItems_answers hr n (List.nil_subset _)).bind fun _ =>
    (answers_expectSymbol _ _).bind fun _ => answers_pure (List.subset_append_left _ _)

omit hr in
theorem params_answers (n : Nat) {seen : List Name}
    (known : .list seen.length :: seen.map .name ⊆ given) :
    Answers phase given (params n seen) fun ps => .list ps.length :: ps.map .name := by
  induction n generalizing seen given phase with
  | zero => exact answers_pure (by grind)
  | succ n ih =>
    refine .counted ((answers_expectName _).bind fun p => ?_)
    refine (answers_acceptSymbol .comma).bind fun _ => .ite (ih ?_) (answers_pure ?_)
    all_goals grind

theorem function_answers (sort : String) (n : Nat) :
    Answers phase given (function sort n r) FunctionDecl.details := by
  refine (answers_expectName _).bind fun name => (answers_expectSymbol _ _).bind fun _ => ?_
  refine .knowing (d := .list 0) ?_ fun _ _ _ => Nat.zero_le _
  refine (answers_checkSymbol .rightParen).bind fun _ => ?_
  refine .choose (answers_pure ?_) (params_answers n ?_) fun params => ?_
  · simp
  · simp
  · refine (answers_expectSymbol _ _).bind fun _ => (answers_expectSymbol _ _).bind fun _ => ?_
    exact (block_answers hr n).bind fun body => answers_pure (by grind [FunctionDecl.details])

theorem methods_answers (n : Nat) {seen : List (FunctionDecl RefId)}
    (known : FunctionDecl.detailsAll seen ⊆ given) :
    Answers phase given (methods r n seen) FunctionDecl.detailsAll := by
  induction n generalizing seen given phase with
  | zero => exact answers_pure (by grind)
  | succ n ih =>
    refine (answers_checkSymbol .rightBrace).bind fun _ => answers_atEnd.bind fun _ => .ite ?_ ?_
    · exact answers_pure (by grind)
    · exact (function_answers hr "method" n).bind fun d => ih (by grind [FunctionDecl.detailsAll])

omit hr in
theorem superclass_answers :
    Answers phase given superclass fun parent => parent.toList.map (.reference .variable) := by
  refine (answers_acceptSymbol .less).bind fun _ => .ite ?_ (answers_pure (List.nil_subset _))
  exact .expectReference fun name => .reference fun id => answers_pure (by simp)

theorem classDeclaration_answers (n : Nat) :
    Answers phase given (classDeclaration n r) Stmt.details := by
  refine (answers_expectName _).bind fun name => superclass_answers.bind fun parent => ?_
  refine (answers_expectSymbol _ _).bind fun _ => ?_
  refine (methods_answers hr n (List.nil_subset _)).bind fun body => ?_
  exact (answers_expectSymbol _ _).bind fun _ => answers_pure (by grind [Stmt.details])

omit hr in
theorem optional_answers {e : Parser (Expr RefId)} (he : Answers phase given e Expr.details) :
    Answers phase given (some <$> e) Expr.details? :=
  .map he

theorem variableDeclaration_answers :
    Answers phase given (variableDeclaration r) Stmt.details := by
  refine (answers_expectName _).bind fun name => (answers_acceptSymbol .equal).bind fun _ => ?_
  refine .choose (optional_answers hr.expression) (answers_pure (List.nil_subset _)) fun _ => ?_
  exact (answers_expectSymbol _ _).bind fun _ => answers_pure (by grind [Stmt.details])

omit hr in
theorem plain_answers {s : Stmt RefId} (plain : s.isDeclaration = false)
    (known : s.details ⊆ given) : Answers phase given (pure s) Stmt.branchDetails := by
  refine .knowing (d := .branch false) (answers_pure ?_) fun _ _ => rfl
  rw [Stmt.branchDetails, plain]
  exact List.cons_subset_cons _ known

omit hr in
theorem expressionStatement_answers {e : Parser (Expr RefId)}
    (he : Answers phase given e Expr.details) :
    Answers phase given (expressionStatement e) Stmt.branchDetails :=
  he.bind fun _ => (answers_expectSymbol _ _).bind fun _ =>
    plain_answers rfl (List.subset_append_left _ _)

theorem forInitializer_answers :
    Answers phase given (forInitializer r) fun s? => Stmt.detailsAll s?.toList := by
  refine (answers_acceptSymbol .semicolon).bind fun _ => .ite (answers_pure (List.nil_subset _)) ?_
  refine (answers_acceptKeyword .varKw).bind fun _ => .ite (.map ?_) (.map ?_)
  · exact (variableDeclaration_answers hr).mono fun s => by grind [Stmt.detailsAll]
  · exact (expressionStatement_answers hr.expression).mono fun s => by
      grind [Stmt.detailsAll, Stmt.branchDetails]

omit hr in
/-- The loop that a `for` statement stands for has a block as its body, if there is a step. -/
theorem forLoop_details (initializer : Option (Stmt RefId)) (condition : Expr RefId)
    (increment : Option (Expr RefId)) (body : Stmt RefId) :
    (forLoop initializer condition increment body).details ⊆
      .branch false :: (body.branchDetails ++ (Expr.details? increment ++
        (condition.details ++ Stmt.detailsAll initializer.toList))) := by
  intro d mem
  cases initializer <;> cases increment <;>
    simp only [forLoop, Stmt.details, Stmt.detailsAll, Stmt.branchDetails, Stmt.isDeclaration,
      Expr.details?, Option.toList] at mem ⊢ <;>
    grind

omit hr in
theorem forLoop_plain (initializer : Option (Stmt RefId)) (condition : Expr RefId)
    (increment : Option (Expr RefId)) (body : Stmt RefId) :
    (forLoop initializer condition increment body).isDeclaration = false := by
  cases initializer <;> rfl

theorem forStatement_answers : Answers phase given (forStatement r) Stmt.branchDetails := by
  refine (answers_expectSymbol _ _).bind fun _ => (forInitializer_answers hr).bind fun first => ?_
  refine .knowing (d := .literal (.boolean true)) ?_ fun _ _ => trivial
  refine (answers_checkSymbol .semicolon).bind fun _ => ?_
  refine .choose (answers_pure (by simp [Expr.details])) hr.expression fun condition => ?_
  refine (answers_expectSymbol _ _).bind fun _ => (answers_checkSymbol .rightParen).bind fun _ => ?_
  refine .choose (answers_pure (List.nil_subset _)) (optional_answers hr.expression)
    fun increment => ?_
  refine (answers_expectSymbol _ _).bind fun _ => hr.statement.bind fun body => ?_
  refine .knowing (d := .branch false) ?_ fun _ _ => rfl
  refine plain_answers (forLoop_plain first condition increment body) ?_
  have parts := forLoop_details first condition increment body
  grind

theorem ifStatement_answers : Answers phase given (ifStatement r) Stmt.branchDetails := by
  refine (answers_expectSymbol _ _).bind fun _ => hr.expression.bind fun condition => ?_
  refine (answers_expectSymbol _ _).bind fun _ => hr.statement.bind fun thenBranch => ?_
  refine (answers_acceptKeyword .elseKw).bind fun _ => ?_
  have other {given : List (Detail RefId)} : Answers .anywhere given (some <$> r.statement)
      fun s? => s?.toList.flatMap Stmt.branchDetails :=
    .map (by simpa using hr.statement)
  refine .choose other (answers_pure (List.nil_subset _)) fun elseBranch => ?_
  refine plain_answers rfl ?_
  cases elseBranch <;> grind [Stmt.details, Stmt.branchDetails]

theorem whileStatement_answers : Answers phase given (whileStatement r) Stmt.branchDetails := by
  refine (answers_expectSymbol _ _).bind fun _ => hr.expression.bind fun condition => ?_
  refine (answers_expectSymbol _ _).bind fun _ => hr.statement.bind fun body => ?_
  exact plain_answers rfl (by grind [Stmt.details, Stmt.branchDetails])

theorem returnStatement_answers (line : Nat) :
    Answers phase given (returnStatement line r) Stmt.branchDetails := by
  refine (answers_checkSymbol _).bind fun _ => ?_
  refine .choose (answers_pure (List.nil_subset _)) (optional_answers hr.expression) fun _ => ?_
  exact (answers_expectSymbol _ _).bind fun _ => plain_answers rfl (List.subset_append_left _ _)

theorem printStatement_answers : Answers phase given (printStatement r) Stmt.branchDetails :=
  hr.expression.bind fun _ => (answers_expectSymbol _ _).bind fun _ =>
    plain_answers rfl (List.subset_append_left _ _)

theorem statement_answers (n : Nat) : Answers phase given (statement n r) Stmt.branchDetails := by
  refine answers_peek.bind fun t => ?_
  split
  · exact answers_advance.bind fun _ => forStatement_answers hr
  · exact answers_advance.bind fun _ => ifStatement_answers hr
  · exact answers_advance.bind fun _ => whileStatement_answers hr
  · exact answers_advance.bind fun _ => returnStatement_answers hr _
  · exact answers_advance.bind fun _ => (block_answers hr n).bind fun _ =>
      plain_answers rfl (List.subset_append_left _ _)
  · exact answers_advance.bind fun _ => printStatement_answers hr
  · exact expressionStatement_answers (assignment_answers hr n)

theorem declarationOrError_answers (n : Nat) :
    Answers phase given (declarationOrError n r) Stmt.details := by
  refine answers_peek.bind fun t => ?_
  split
  · exact answers_advance.bind fun _ => classDeclaration_answers hr n
  · exact answers_advance.bind fun _ => (function_answers hr "function" n).bind fun _ =>
      answers_pure (List.subset_append_left _ _)
  · exact answers_advance.bind fun _ => variableDeclaration_answers hr
  · exact (statement_answers hr n).mono fun _ => List.subset_cons_self _ _

/-- A declaration in error is dropped with all its details; its references stay in the register. -/
theorem declaration_answers (n : Nat) :
    Answers phase given (declaration n r) fun s? => Stmt.detailsAll s?.toList := by
  intro tokens firstRef register s keeps there known
  have ends := declarationOrError_answers hr n _ _ register s keeps there known
  unfold declaration
  revert ends
  generalize declarationOrError n r s = x
  intro ends
  cases ends with
  | ok on found => exact .ok on (by simpa [Stmt.detailsAll] using found)
  | @error e s' register' on =>
    have recorded := on.trans (on.keeps.extends_record e)
    exact .ok (recorded.trans recorded.keeps.extends_synchronize) (List.forall_mem_nil _)

omit hr

theorem rules_answer (n : Nat) : Rules.Answer (rules n) := by
  induction n with
  | zero =>
    exact ⟨answers_failHere _, answers_failHere _, answers_failHere _,
      answers_pure (List.nil_subset _)⟩
  | succ n ih =>
    exact ⟨assignment_answers ih n, unary_answers ih n, statement_answers ih n,
      declaration_answers ih n⟩

theorem programItems_answers {r : Rules} (hr : Rules.Answer r) (n : Nat) {seen : List (Stmt RefId)}
    (known : Stmt.detailsAll seen ⊆ given) :
    Answers phase given (programItems r n seen) Stmt.detailsAll := by
  induction n generalizing seen given phase with
  | zero => exact answers_pure (by grind)
  | succ n ih =>
    refine answers_atEnd.bind fun _ => .ite (answers_pure (by grind)) ?_
    refine hr.declaration.bind fun s? => ?_
    cases s? with
    | none => exact ih known
    | some s => exact ih (by grind [Stmt.detailsAll])

theorem wholeExpression_answers {r : Rules} (hr : Rules.Answer r) :
    Answers phase given (wholeExpression r) Expr.details :=
  hr.expression.bind fun _ => answers_atEnd.bind fun _ =>
    .ite (answers_pure (List.subset_append_left _ _)) (answers_failHere _)

/-! ## Assignments -/

/-- Any token. -/
def anyToken (_ : Token) : Prop := True

theorem allTokens_any (s : ParseState) : s.AllTokens anyToken :=
  ⟨fun _ _ => trivial, trivial, .inl trivial, fun _ _ => trivial⟩

theorem gives_any {α : Type} (p : Parser α) : p.Gives anyToken fun _ => True := by
  intro s _
  cases p s with
  | ok a s' => exact ⟨trivial, allTokens_any s'⟩
  | error e s' => exact ⟨trivial, allTokens_any s'⟩

theorem chain_unassigned {operator : Kind → Option BinaryOp} {operand : Parser (Expr RefId)}
    (n : Nat) {left : Expr RefId} (hl : left.isAssign = false) :
    (chain operator operand n left).Gives anyToken (·.isAssign = false) := by
  induction n generalizing left with
  | zero => exact gives_pure hl
  | succ n ih =>
    refine gives_peek.bind fun t _ => ?_
    cases operator t.kind with
    | none => exact gives_pure hl
    | some op => exact gives_advance.bind fun _ _ => (gives_any _).bind fun _ _ => ih rfl

theorem logicalChain_unassigned {keyword : Keyword} {op : LogicalOp}
    {operand : Parser (Expr RefId)} (n : Nat) {left : Expr RefId} (hl : left.isAssign = false) :
    (logicalChain keyword op operand n left).Gives anyToken (·.isAssign = false) := by
  induction n generalizing left with
  | zero => exact gives_pure hl
  | succ n ih =>
    refine (gives_acceptKeyword keyword).bind fun _ _ => .ite ?_ (gives_pure hl)
    exact (gives_any _).bind fun _ _ => ih rfl

theorem suffixes_unassigned (r : Rules) (n : Nat) {object : Expr RefId}
    (ho : object.isAssign = false) :
    (suffixes r n object).Gives anyToken (·.isAssign = false) := by
  induction n generalizing object with
  | zero => exact gives_pure ho
  | succ n ih =>
    refine (gives_acceptSymbol .leftParen).bind fun _ _ => .ite ?_ ?_
    · have call : (callOf n r object).Gives anyToken (·.isAssign = false) :=
        (gives_any _).bind fun _ _ => .choose (gives_any _) (gives_any _) fun _ _ =>
          (gives_any _).bind fun _ _ => gives_pure rfl
      exact call.bind fun _ he => ih he
    · refine (gives_acceptSymbol .dot).bind fun _ _ => .ite ?_ (gives_pure ho)
      exact (gives_expectName _).bind fun _ _ => ih rfl

theorem primary_unassigned (r : Rules) : (primary r).Gives anyToken (·.isAssign = false) := by
  refine gives_peek.bind fun t _ => ?_
  split
  case h_6 | h_8 =>
    exact gives_advance.bind fun _ _ => (gives_any _).bind fun _ _ => gives_pure rfl
  case h_7 =>
    exact gives_advance.bind fun _ _ => (gives_any _).bind fun _ _ => (gives_any _).bind fun _ _ =>
      (gives_any _).bind fun _ _ => gives_pure rfl
  case h_9 =>
    exact gives_advance.bind fun _ _ => (gives_any _).bind fun _ _ => (gives_any _).bind fun _ _ =>
      gives_pure rfl
  case h_10 => exact gives_failHere _
  all_goals exact gives_advance.bind fun _ _ => gives_pure rfl

/-- What may stand in front of an equals sign is no assignment itself. -/
theorem disjunction_unassigned (n : Nat) (r : Rules) :
    (disjunction n r).Gives anyToken (·.isAssign = false) := by
  have unary : (unary n r).Gives anyToken (·.isAssign = false) := by
    refine gives_peek.bind fun t _ => ?_
    split
    · exact gives_advance.bind fun _ _ => (gives_any _).bind fun _ _ => gives_pure rfl
    · exact (primary_unassigned r).bind fun _ h => suffixes_unassigned r n h
  have factor : (factor n r).Gives anyToken (·.isAssign = false) :=
    unary.bind fun _ h => chain_unassigned n h
  have term : (term n r).Gives anyToken (·.isAssign = false) :=
    factor.bind fun _ h => chain_unassigned n h
  have comparison : (comparison n r).Gives anyToken (·.isAssign = false) :=
    term.bind fun _ h => chain_unassigned n h
  have equality : (equality n r).Gives anyToken (·.isAssign = false) :=
    comparison.bind fun _ h => chain_unassigned n h
  have conjunction : (conjunction n r).Gives anyToken (·.isAssign = false) :=
    equality.bind fun _ h => logicalChain_unassigned n h
  exact conjunction.bind fun _ h => logicalChain_unassigned n h

/-- A rule of two parts that comes to a result has come to one in both. -/
theorem ok_of_bind {α β : Type} {p : Parser α} {f : α → Parser β} {s s' : ParseState} {b : β}
    (ran : (p >>= f) s = .ok b s') : ∃ a s₁, p s = .ok a s₁ ∧ f a s₁ = .ok b s' := by
  simp only [Bind.bind, EStateM.bind] at ran
  split at ran
  · next a s₁ first => exact ⟨a, s₁, first, ran⟩
  · cases ran

/-- Where an assignment is read, its target was read as a variable. -/
theorem assignment_target {n : Nat} {r : Rules} {s s' : ParseState} {target : Reference RefId}
    {value : Expr RefId} (ran : assignment n r s = .ok (.assign target value) s') :
    ∃ s₁, disjunction n r s = .ok (.variable target) s₁ ∧ s₁.isNext (.symbol .equal) = true ∧
      r.expression s₁.advance = .ok value s' := by
  obtain ⟨left, s₁, read, ran⟩ := ok_of_bind ran
  have unassigned := disjunction_unassigned n r s (allTokens_any s)
  rw [read] at unassigned
  obtain ⟨taken, s₂, accepted, ran⟩ := ok_of_bind ran
  simp only [acceptSymbol, accept] at accepted
  split at accepted
  · next isEqual =>
    cases accepted
    obtain ⟨equals, s₃, isPrevious, ran⟩ := ok_of_bind ran
    cases isPrevious
    obtain ⟨right, s₄, second, ran⟩ := ok_of_bind ran
    refine ⟨s₁, ?_⟩
    unfold assignTo at ran
    split at ran
    · cases ran
      exact ⟨read, isEqual, second⟩
    · cases ran
    · cases ran
      cases unassigned.1
  · cases accepted
    cases ran
    cases unassigned.1

/-! ## Whole parses -/

/-- A parse begins with an empty register. -/
theorem answers_start {α : Type} {p : Parser α} {details : α → List (Detail RefId)}
    (h : Answers .anywhere [] p details) (tokens : List Token) (firstRef : RefId) :
    Gains (.empty : Register tokens firstRef) (.start tokens firstRef) details
      (p (.start tokens firstRef)) :=
  h tokens firstRef .empty _ ⟨rfl, [], rfl, nofun⟩ trivial (List.forall_mem_nil _)

end Parser

section

variable (tokens : List Token) (firstRef : RefId)

theorem parseProgram_details : ∃ register : Register tokens firstRef,
    (parseProgram tokens firstRef).nextRef = firstRef + register.entries.length ∧
    ∀ d ∈ Stmt.detailsAll (parseProgram tokens firstRef).result,
      d.Holds register ((parseProgram tokens firstRef).errors = []) := by
  have nothing : Stmt.detailsAll [] ⊆ ([] : List (Detail RefId)) := List.nil_subset _
  have ends := Parser.answers_start (Parser.programItems_answers
    (Parser.rules_answer (tokens.length + 1)) (tokens.length + 1) nothing) tokens firstRef
  simp only [parseProgram]
  revert ends
  generalize Parser.programItems _ _ _ _ = x
  intro ends
  cases ends with
  | error on => exact ⟨_, on.keeps.nextRef, nofun⟩
  | ok on known => exact ⟨_, on.keeps.nextRef, known.holds⟩

theorem parseExpression_details : ∃ register : Register tokens firstRef,
    (parseExpression tokens firstRef).nextRef = firstRef + register.entries.length ∧
    ∀ d ∈ Expr.details? (parseExpression tokens firstRef).result,
      d.Holds register ((parseExpression tokens firstRef).errors = []) := by
  have ends := Parser.answers_start (Parser.wholeExpression_answers
    (Parser.rules_answer (tokens.length + 1))) tokens firstRef
  simp only [parseExpression]
  revert ends
  generalize Parser.wholeExpression _ _ = x
  intro ends
  cases ends with
  | error on => exact ⟨_, on.keeps.nextRef, nofun⟩
  | ok on known => exact ⟨_, on.keeps.nextRef, known.holds⟩

/-- **The details of parsed statements are those of the tokens**, whatever these are, and also where
they are in error:

- No branch of a conditional and no body of a loop is a declaration.
- References are numbered one by one, in the order of the tokens that they are read at, and all
  that are in the tree are in the register, with their numbers and names. So what has turned from a
  variable into the target of an assignment is still the reference that was read: its name is that
  of its identifier, and what goes by the name of the instance or of the superclass was read at
  their keywords.
- All other names are those of identifiers, too.
- Without an error, no list of parameters or arguments is longer than 255.

The last part says of the rule for assignments that the reference which it assigns to is the one
that it has read in front of the equals sign. -/
theorem parsed_details_registered :
    (∃ register : Register tokens firstRef,
      (parseProgram tokens firstRef).nextRef = firstRef + register.entries.length ∧
      ∀ d ∈ Stmt.detailsAll (parseProgram tokens firstRef).result,
        d.Holds register ((parseProgram tokens firstRef).errors = [])) ∧
    ∀ (n : Nat) (r : Rules) (s s' : ParseState) (target : Reference RefId) (value : Expr RefId),
      Parser.assignment n r s = .ok (.assign target value) s' →
      ∃ s₁, Parser.disjunction n r s = .ok (.variable target) s₁ ∧
        s₁.isNext (.symbol .equal) = true ∧ r.expression s₁.advance = .ok value s' :=
  ⟨parseProgram_details tokens firstRef, fun _ _ _ _ _ _ => Parser.assignment_target⟩

end

end Lox
