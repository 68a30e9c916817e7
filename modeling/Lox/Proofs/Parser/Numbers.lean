import Lox.Parser.Program
import Lox.Proofs.Syntax.Marks
import Mathlib.Data.List.Intervals
import Mathlib.Data.List.Perm.Subperm

/-!
# The numbers of references

`p.Numbers given marks` says of a rule that is started with some references in hand, the `given`
ones, that the marks of its result are, up to their order, some of these and of the numbers that it
takes from the counter, each at most once. The counter never goes back, also where the rule stops with
an error. So all references of a parse have numbers of their own, whatever is dropped on the way: the
value of a target that is none, a declaration in error, or all.
-/

open scoped List

namespace Lox

/-- The counter has gone on to `s'`, and the marks are some of the given ones and of the numbers
taken between. -/
def ParseState.Counts (s s' : ParseState) (given marks : List RefId) : Prop :=
  s.nextRef ≤ s'.nextRef ∧ marks <+~ given ++ List.Ico s.nextRef s'.nextRef

/-- Started with the given references in hand, the rule gives each number at most once. -/
def Parser.Numbers {α : Type} (given : List RefId) (p : Parser α) (marks : α → List RefId) : Prop :=
  ∀ s : ParseState,
    match p s with
    | .ok a s' => s.Counts s' given (marks a)
    | .error _ s' => s.nextRef ≤ s'.nextRef

namespace ParseState

variable {s s' s'' : ParseState} {given marks marks' : List RefId}

theorem Counts.still (same : s'.nextRef = s.nextRef) (some : marks <+~ given) :
    s.Counts s' given marks := by
  constructor
  · exact Nat.le_of_eq same.symm
  · rw [same, List.Ico.self_empty, List.append_nil]
    exact some

theorem Counts.trans (first : s.Counts s' given marks) (second : s'.Counts s'' marks marks') :
    s.Counts s'' given marks' := by
  obtain ⟨onward, some⟩ := first
  obtain ⟨onward', some'⟩ := second
  constructor
  · exact Nat.le_trans onward onward'
  · rw [← List.Ico.append_consecutive onward onward', ← List.append_assoc]
    exact some'.trans ((List.subperm_append_right _).2 some)

theorem Counts.mono (h : s.Counts s' given marks) (fewer : marks' <+~ marks) :
    s.Counts s' given marks' :=
  ⟨h.1, fewer.trans h.2⟩

/-- More references may be in hand. -/
theorem Counts.keeping (h : s.Counts s' given marks) (kept : List RefId) :
    s.Counts s' (kept ++ given) (kept ++ marks) := by
  constructor
  · exact h.1
  · rw [List.append_assoc]
    exact (List.subperm_append_left kept).2 h.2

@[simp] theorem nextRef_advance : s.advance.nextRef = s.nextRef := by
  unfold advance
  split
  · rfl
  · split <;> rfl

@[simp] theorem nextRef_record (e : SyntaxError) : (s.record e).nextRef = s.nextRef := rfl

@[simp] theorem nextRef_synchronize : (Parser.synchronize s).nextRef = s.nextRef := nextRef_advance

end ParseState

namespace Parser

open ParseState (Counts)

variable {α β : Type} {given : List RefId} {marks marks' : α → List RefId} {more : β → List RefId}

/-! ## Steps -/

theorem Numbers.mono {p : Parser α} (h : p.Numbers given marks)
    (fewer : ∀ a, marks' a <+~ marks a) : p.Numbers given marks' := by
  intro s
  have counts := h s
  revert counts
  cases p s with
  | ok a s' => exact fun counts => counts.mono (fewer a)
  | error e s' => exact id

theorem Numbers.bind {p : Parser α} {f : α → Parser β} (hp : p.Numbers given marks)
    (hf : ∀ a, (f a).Numbers (marks a) more) : (p >>= f).Numbers given more := by
  intro s
  have first := hp s
  simp only [Bind.bind, EStateM.bind]
  revert first
  cases p s with
  | error e s' => exact id
  | ok a s' =>
    intro first
    have second := hf a s'
    dsimp only
    revert second
    cases f a s' with
    | ok b s'' => exact fun second => first.trans second
    | error e s'' => exact fun second => Nat.le_trans first.1 second

theorem Numbers.map {p : Parser α} {f : α → β} (hp : p.Numbers given fun a => more (f a)) :
    (f <$> p).Numbers given more := by
  intro s
  have first := hp s
  simp only [Functor.map, EStateM.map]
  revert first
  cases p s with
  | ok a s' => exact id
  | error e s' => exact id

theorem Numbers.ite {c : Prop} [Decidable c] {p q : Parser α} (hp : p.Numbers given marks)
    (hq : q.Numbers given marks) : (if c then p else q).Numbers given marks := by
  split
  · exact hp
  · exact hq

/-- Two ways to read something that the rule then goes on with. -/
theorem Numbers.choose {c : Prop} [Decidable c] {p q : Parser α} {f : α → Parser β}
    (hp : p.Numbers given marks) (hq : q.Numbers given marks)
    (hf : ∀ a, (f a).Numbers (marks a) more) :
    (if c then p >>= f else q >>= f).Numbers given more :=
  .ite (hp.bind hf) (hq.bind hf)

/-- More references may be in hand. -/
theorem Numbers.keeping {p : Parser α} (hp : p.Numbers [] marks) (kept : List RefId) :
    p.Numbers kept fun a => kept ++ marks a := by
  intro s
  have counts := hp s
  revert counts
  cases p s with
  | ok a s' =>
    intro counts
    have both := counts.keeping kept
    rw [List.append_nil] at both
    exact both
  | error e s' => exact id

theorem numbers_pure {a : α} (some : marks a <+~ given) : (pure a : Parser α).Numbers given marks :=
  fun _ => Counts.still rfl some

theorem numbers_failHere (cause : SyntaxCause) :
    (failHere cause : Parser α).Numbers given marks :=
  fun _ => Nat.le_refl _

theorem numbers_report (cause : SyntaxCause) (t : Token) :
    (report cause t).Numbers given fun _ => given :=
  fun _ => Counts.still rfl (.refl _)

theorem numbers_check (kind : Kind) : (check kind).Numbers given fun _ => given :=
  fun _ => Counts.still rfl (.refl _)

theorem numbers_checkSymbol (symbol : Symbol) : (checkSymbol symbol).Numbers given fun _ => given :=
  numbers_check _

theorem numbers_atEnd : atEnd.Numbers given fun _ => given := fun _ => Counts.still rfl (.refl _)

theorem numbers_peek : peek.Numbers given fun _ => given := fun _ => Counts.still rfl (.refl _)

/-- An error may be recorded before the rule goes on. -/
theorem Numbers.afterReport {c : Prop} [Decidable c] {p : Parser α} {cause : SyntaxCause}
    (hp : p.Numbers given marks) :
    (if c then peek >>= fun t => report cause t >>= fun _ => p else p).Numbers given marks :=
  .ite (numbers_peek.bind fun _ => (numbers_report _ _).bind fun _ => hp) hp

theorem numbers_previous : previous.Numbers given fun _ => given :=
  fun _ => Counts.still rfl (.refl _)

theorem numbers_advance : advance.Numbers given fun _ => given :=
  fun _ => Counts.still ParseState.nextRef_advance (.refl _)

theorem numbers_accept (kind : Kind) : (accept kind).Numbers given fun _ => given := by
  intro s
  unfold accept
  split
  · next result =>
    split at result
    · cases result
      exact Counts.still ParseState.nextRef_advance (.refl _)
    · cases result
      exact Counts.still rfl (.refl _)
  · next result => split at result <;> cases result

theorem numbers_acceptSymbol (symbol : Symbol) :
    (acceptSymbol symbol).Numbers given fun _ => given :=
  numbers_accept _

theorem numbers_acceptKeyword (keyword : Keyword) :
    (acceptKeyword keyword).Numbers given fun _ => given :=
  numbers_accept _

theorem numbers_expect (kind : Kind) (cause : SyntaxCause) :
    (expect kind cause).Numbers given fun _ => given :=
  (numbers_check kind).bind fun _ => .ite numbers_advance (numbers_failHere cause)

theorem numbers_expectSymbol (symbol : Symbol) (place : String) :
    (expectSymbol symbol place).Numbers given fun _ => given :=
  numbers_expect _ _

theorem numbers_expectName (sort : String) : (expectName sort).Numbers given fun _ => given :=
  (numbers_expect _ _).bind fun _ => numbers_pure (.refl _)

/-- The one step that takes a number. -/
theorem numbers_freshRef : freshRef.Numbers given fun id => given ++ [id] := by
  intro s
  constructor
  · exact Nat.le_succ _
  · rw [List.Ico.succ_singleton]

theorem numbers_reference (name : Name) :
    (reference name).Numbers given fun r => given ++ [r.mark] :=
  numbers_freshRef.bind fun _ => numbers_pure (.refl _)

/-! ## Expressions -/

/-- What the rules for the rest of the tokens give. -/
structure Rules.Number (r : Rules) : Prop where
  expression : r.expression.Numbers [] Expr.marks
  unary : r.unary.Numbers [] Expr.marks
  statement : r.statement.Numbers [] Stmt.marks
  declaration : r.declaration.Numbers [] fun s? => Stmt.marksAll s?.toList

theorem chain_numbers {operator : Kind → Option BinaryOp} {operand : Parser (Expr RefId)}
    (hr : operand.Numbers [] Expr.marks) (n : Nat) (left : Expr RefId) :
    (chain operator operand n left).Numbers left.marks Expr.marks := by
  induction n generalizing left with
  | zero => exact numbers_pure (.refl _)
  | succ n ih =>
    refine numbers_peek.bind fun t => ?_
    cases operator t.kind with
    | none => exact numbers_pure (.refl _)
    | some op =>
      exact numbers_advance.bind fun token => (hr.keeping left.marks).bind fun right =>
        ih (.binary op token.line left right)

theorem logicalChain_numbers {keyword : Keyword} {op : LogicalOp} {operand : Parser (Expr RefId)}
    (hr : operand.Numbers [] Expr.marks) (n : Nat) (left : Expr RefId) :
    (logicalChain keyword op operand n left).Numbers left.marks Expr.marks := by
  induction n generalizing left with
  | zero => exact numbers_pure (.refl _)
  | succ n ih =>
    refine (numbers_acceptKeyword keyword).bind fun taken => .ite ?_ (numbers_pure (.refl _))
    exact (hr.keeping left.marks).bind fun right => ih (.logical op left right)

variable {r : Rules} (hr : Rules.Number r)
include hr

theorem arguments_numbers (n : Nat) (seen : List (Expr RefId)) :
    (arguments r n seen).Numbers (Expr.marksAll seen.reverse) Expr.marksAll := by
  induction n generalizing seen with
  | zero => exact numbers_pure (.refl _)
  | succ n ih =>
    refine .afterReport ((hr.expression.keeping _).bind fun e => ?_)
    have more : Expr.marksAll (e :: seen).reverse = Expr.marksAll seen.reverse ++ e.marks := by
      rw [List.reverse_cons, Expr.marksAll_append]
      simp [Expr.marksAll]
    rw [← more]
    exact (numbers_acceptSymbol .comma).bind fun _ => .ite (ih _) (numbers_pure (.refl _))

theorem callOf_numbers (n : Nat) (callee : Expr RefId) :
    (callOf n r callee).Numbers callee.marks Expr.marks := by
  refine (numbers_checkSymbol .rightParen).bind fun _ => ?_
  have listed : (arguments r n []).Numbers callee.marks fun es => callee.marks ++ Expr.marksAll es :=
    (arguments_numbers hr n []).keeping callee.marks
  refine .choose (numbers_pure (by simp [Expr.marksAll, List.Subperm.refl])) listed fun es => ?_
  exact (numbers_expectSymbol _ _).bind fun _ => numbers_pure (.refl _)

theorem suffixes_numbers (n : Nat) (object : Expr RefId) :
    (suffixes r n object).Numbers object.marks Expr.marks := by
  induction n generalizing object with
  | zero => exact numbers_pure (.refl _)
  | succ n ih =>
    refine (numbers_acceptSymbol .leftParen).bind fun _ => .ite ?_ ?_
    · exact (callOf_numbers hr n object).bind ih
    · refine (numbers_acceptSymbol .dot).bind fun _ => .ite ?_ (numbers_pure (.refl _))
      exact (numbers_expectName _).bind fun property => ih (.get object property)

omit hr in
theorem superMethod_numbers (line : Nat) : (superMethod line).Numbers [] Expr.marks :=
  (numbers_expectSymbol _ _).bind fun _ => (numbers_expectName _).bind fun _ =>
    numbers_freshRef.bind fun _ => numbers_pure (.refl _)

theorem grouping_numbers : (grouping r).Numbers [] Expr.marks :=
  hr.expression.bind fun _ => (numbers_expectSymbol _ _).bind fun _ => numbers_pure (.refl _)

theorem primary_numbers : (primary r).Numbers [] Expr.marks := by
  refine numbers_peek.bind fun t => ?_
  split
  case h_8 =>
    exact numbers_advance.bind fun _ => (numbers_reference _).bind fun _ => numbers_pure (.refl _)
  case h_6 =>
    exact numbers_advance.bind fun _ => numbers_freshRef.bind fun _ => numbers_pure (.refl _)
  case h_7 => exact numbers_advance.bind fun _ => superMethod_numbers _
  case h_9 => exact numbers_advance.bind fun _ => grouping_numbers hr
  case h_10 => exact numbers_failHere _
  all_goals exact numbers_advance.bind fun _ => numbers_pure (.refl _)

theorem call_numbers (n : Nat) : (call n r).Numbers [] Expr.marks :=
  (primary_numbers hr).bind fun e => suffixes_numbers hr n e

theorem unary_numbers (n : Nat) : (unary n r).Numbers [] Expr.marks := by
  refine numbers_peek.bind fun t => ?_
  split
  · exact numbers_advance.bind fun _ => hr.unary.bind fun _ => numbers_pure (.refl _)
  · exact call_numbers hr n

theorem factor_numbers (n : Nat) : (factor n r).Numbers [] Expr.marks :=
  (unary_numbers hr n).bind fun e => chain_numbers (unary_numbers hr n) n e

theorem term_numbers (n : Nat) : (term n r).Numbers [] Expr.marks :=
  (factor_numbers hr n).bind fun e => chain_numbers (factor_numbers hr n) n e

theorem comparison_numbers (n : Nat) : (comparison n r).Numbers [] Expr.marks :=
  (term_numbers hr n).bind fun e => chain_numbers (term_numbers hr n) n e

theorem equality_numbers (n : Nat) : (equality n r).Numbers [] Expr.marks :=
  (comparison_numbers hr n).bind fun e => chain_numbers (comparison_numbers hr n) n e

theorem conjunction_numbers (n : Nat) : (conjunction n r).Numbers [] Expr.marks :=
  (equality_numbers hr n).bind fun e => logicalChain_numbers (equality_numbers hr n) n e

theorem disjunction_numbers (n : Nat) : (disjunction n r).Numbers [] Expr.marks :=
  (conjunction_numbers hr n).bind fun e => logicalChain_numbers (conjunction_numbers hr n) n e

omit hr in
/-- A target keeps its number when it turns from a read into an assignment; where it is no target, the
value is dropped with its numbers. -/
theorem assignTo_numbers (target value : Expr RefId) (equals : Token) :
    (assignTo target equals value).Numbers (target.marks ++ value.marks) Expr.marks := by
  unfold assignTo
  split
  · exact numbers_pure (.refl _)
  · exact numbers_pure (.refl _)
  · refine (numbers_report _ _).bind fun _ => numbers_pure ?_
    exact (List.sublist_append_left _ _).subperm

theorem assignment_numbers (n : Nat) : (assignment n r).Numbers [] Expr.marks := by
  refine (disjunction_numbers hr n).bind fun target => ?_
  refine (numbers_acceptSymbol .equal).bind fun _ => .ite ?_ (numbers_pure (.refl _))
  exact numbers_previous.bind fun equals => (hr.expression.keeping target.marks).bind fun value =>
    assignTo_numbers target value equals

/-! ## Statements -/

theorem blockItems_numbers (n : Nat) (seen : List (Stmt RefId)) :
    (blockItems r n seen).Numbers (Stmt.marksAll seen.reverse) Stmt.marksAll := by
  induction n generalizing seen with
  | zero => exact numbers_pure (.refl _)
  | succ n ih =>
    refine (numbers_checkSymbol .rightBrace).bind fun _ => numbers_atEnd.bind fun _ => .ite ?_ ?_
    · exact numbers_pure (.refl _)
    · refine (hr.declaration.keeping _).bind fun s? => ?_
      cases s? with
      | none =>
        have same := ih seen
        rwa [← List.append_nil (Stmt.marksAll seen.reverse)] at same
      | some s =>
        have more := ih (s :: seen)
        rwa [List.reverse_cons, Stmt.marksAll_append] at more

theorem block_numbers (n : Nat) : (block n r).Numbers [] Stmt.marksAll :=
  (blockItems_numbers hr n []).bind fun _ => (numbers_expectSymbol _ _).bind fun _ =>
    numbers_pure (.refl _)

omit hr in
theorem params_numbers (n : Nat) (seen : List Name) :
    (params n seen).Numbers [] fun _ => [] := by
  induction n generalizing seen with
  | zero => exact numbers_pure (.refl _)
  | succ n ih =>
    refine .afterReport ((numbers_expectName _).bind fun p => ?_)
    exact (numbers_acceptSymbol .comma).bind fun _ => .ite (ih _) (numbers_pure (.refl _))

theorem function_numbers (sort : String) (n : Nat) :
    (function sort n r).Numbers [] FunctionDecl.marks := by
  refine (numbers_expectName _).bind fun _ => (numbers_expectSymbol _ _).bind fun _ => ?_
  refine (numbers_checkSymbol .rightParen).bind fun _ => ?_
  refine .choose (numbers_pure (.refl _)) (params_numbers n []) fun _ => ?_
  exact (numbers_expectSymbol _ _).bind fun _ => (numbers_expectSymbol _ _).bind fun _ =>
    (block_numbers hr n).bind fun _ => numbers_pure (.refl _)

theorem methods_numbers (n : Nat) (seen : List (FunctionDecl RefId)) :
    (methods r n seen).Numbers (FunctionDecl.marksAll seen.reverse) FunctionDecl.marksAll := by
  induction n generalizing seen with
  | zero => exact numbers_pure (.refl _)
  | succ n ih =>
    refine (numbers_checkSymbol .rightBrace).bind fun _ => numbers_atEnd.bind fun _ => .ite ?_ ?_
    · exact numbers_pure (.refl _)
    · refine ((function_numbers hr "method" n).keeping _).bind fun d => ?_
      have more := ih (d :: seen)
      rw [List.reverse_cons, FunctionDecl.marksAll_append] at more
      simpa [FunctionDecl.marksAll] using more

omit hr in
theorem superclass_numbers :
    superclass.Numbers [] fun parent => (parent.map Reference.mark).toList := by
  refine (numbers_acceptSymbol .less).bind fun _ => .ite ?_ (numbers_pure (.refl _))
  exact (numbers_expectName _).bind fun _ => (numbers_reference _).bind fun _ =>
    numbers_pure (.refl _)

theorem classDeclaration_numbers (n : Nat) : (classDeclaration n r).Numbers [] Stmt.marks := by
  refine (numbers_expectName _).bind fun _ => superclass_numbers.bind fun parent => ?_
  refine (numbers_expectSymbol _ _).bind fun _ => ?_
  refine ((methods_numbers hr n []).keeping _).bind fun body => ?_
  refine (numbers_expectSymbol _ _).bind fun _ => numbers_pure ?_
  cases parent <;> exact .refl _

omit hr in
theorem optional_numbers {e : Parser (Expr RefId)} (he : e.Numbers [] Expr.marks) :
    (some <$> e).Numbers [] Expr.marks? :=
  .map he

theorem variableDeclaration_numbers : (variableDeclaration r).Numbers [] Stmt.marks := by
  refine (numbers_expectName _).bind fun _ => (numbers_acceptSymbol .equal).bind fun _ => ?_
  refine .choose (optional_numbers hr.expression) (numbers_pure List.nil_subperm) fun _ => ?_
  exact (numbers_expectSymbol _ _).bind fun _ => numbers_pure (.refl _)

omit hr in
theorem expressionStatement_numbers {e : Parser (Expr RefId)} (he : e.Numbers [] Expr.marks) :
    (expressionStatement e).Numbers [] Stmt.marks :=
  he.bind fun _ => (numbers_expectSymbol _ _).bind fun _ => numbers_pure (.refl _)

theorem forInitializer_numbers :
    (forInitializer r).Numbers [] fun s? => Stmt.marksAll s?.toList := by
  have initial {p : Parser (Stmt RefId)} (hp : p.Numbers [] Stmt.marks) :
      (some <$> p).Numbers [] fun s? => Stmt.marksAll s?.toList :=
    .map (hp.mono fun s => by simp [Stmt.marksAll, List.Subperm.refl])
  refine (numbers_acceptSymbol .semicolon).bind fun _ => .ite (numbers_pure (.refl _)) ?_
  refine (numbers_acceptKeyword .varKw).bind fun _ => .ite ?_ ?_
  · exact initial (variableDeclaration_numbers hr)
  · exact initial (expressionStatement_numbers hr.expression)

omit hr in
/-- The step of a `for` statement is read before its body and stands behind it in the tree. -/
theorem forLoop_marks (initializer : Option (Stmt RefId)) (condition : Expr RefId)
    (increment : Option (Expr RefId)) (body : Stmt RefId) :
    (forLoop initializer condition increment body).marks <+~
      Stmt.marksAll initializer.toList ++ condition.marks ++ Expr.marks? increment ++ body.marks := by
  have loop : (forLoop none condition increment body).marks ~
      condition.marks ++ (Expr.marks? increment ++ body.marks) := by
    cases increment with
    | none => exact .refl _
    | some e =>
      have step : (Stmt.block [body, .expression e]).marks = body.marks ++ e.marks := by
        simp [Stmt.marks, Stmt.marksAll]
      simp only [forLoop, Stmt.marks, Expr.marks?] at step ⊢
      rw [step]
      exact List.perm_append_comm.append_left _
  have whole : (forLoop initializer condition increment body).marks =
      Stmt.marksAll initializer.toList ++ (forLoop none condition increment body).marks := by
    cases initializer <;> simp [forLoop, Stmt.marks, Stmt.marksAll]
  rw [whole, List.append_assoc, List.append_assoc]
  exact (loop.append_left _).subperm

theorem forStatement_numbers : (forStatement r).Numbers [] Stmt.marks := by
  refine (numbers_expectSymbol _ _).bind fun _ => (forInitializer_numbers hr).bind fun first => ?_
  refine (numbers_checkSymbol .semicolon).bind fun _ => ?_
  refine .choose (numbers_pure (by simp [Expr.marks, List.Subperm.refl]))
    (hr.expression.keeping _) fun condition => ?_
  refine (numbers_expectSymbol _ _).bind fun _ => (numbers_checkSymbol .rightParen).bind fun _ => ?_
  have step := (optional_numbers hr.expression).keeping (Stmt.marksAll first.toList ++ condition.marks)
  refine .choose (numbers_pure ?_) step fun increment => ?_
  · rw [Expr.marks?, List.append_nil]
  refine (numbers_expectSymbol _ _).bind fun _ => (hr.statement.keeping _).bind fun body => ?_
  exact numbers_pure (forLoop_marks first condition increment body)

theorem ifStatement_numbers : (ifStatement r).Numbers [] Stmt.marks := by
  refine (numbers_expectSymbol _ _).bind fun _ => hr.expression.bind fun condition => ?_
  refine (numbers_expectSymbol _ _).bind fun _ => (hr.statement.keeping _).bind fun thenBranch => ?_
  refine (numbers_acceptKeyword .elseKw).bind fun _ => ?_
  have other : (some <$> r.statement).Numbers [] fun s? => Stmt.marksAll s?.toList :=
    .map (hr.statement.mono fun s => by simp [Stmt.marksAll, List.Subperm.refl])
  have missing : (pure none : Parser (Option (Stmt RefId))).Numbers []
      fun s? => Stmt.marksAll s?.toList :=
    numbers_pure (.refl _)
  refine .choose (other.keeping _) (missing.keeping _) fun elseBranch => numbers_pure ?_
  cases elseBranch <;> simp [Stmt.marks, Stmt.marksAll, List.Subperm.refl]

theorem whileStatement_numbers : (whileStatement r).Numbers [] Stmt.marks :=
  (numbers_expectSymbol _ _).bind fun _ => hr.expression.bind fun _ =>
    (numbers_expectSymbol _ _).bind fun _ => (hr.statement.keeping _).bind fun _ =>
      numbers_pure (.refl _)

theorem returnStatement_numbers (line : Nat) : (returnStatement line r).Numbers [] Stmt.marks :=
  (numbers_checkSymbol _).bind fun _ =>
    .choose (numbers_pure List.nil_subperm) (optional_numbers hr.expression) fun _ =>
      (numbers_expectSymbol _ _).bind fun _ => numbers_pure (.refl _)

theorem printStatement_numbers : (printStatement r).Numbers [] Stmt.marks :=
  hr.expression.bind fun _ => (numbers_expectSymbol _ _).bind fun _ => numbers_pure (.refl _)

theorem statement_numbers (n : Nat) : (statement n r).Numbers [] Stmt.marks := by
  refine numbers_peek.bind fun t => ?_
  split
  · exact numbers_advance.bind fun _ => forStatement_numbers hr
  · exact numbers_advance.bind fun _ => ifStatement_numbers hr
  · exact numbers_advance.bind fun _ => whileStatement_numbers hr
  · exact numbers_advance.bind fun _ => returnStatement_numbers hr _
  · exact numbers_advance.bind fun _ => (block_numbers hr n).bind fun _ => numbers_pure (.refl _)
  · exact numbers_advance.bind fun _ => printStatement_numbers hr
  · exact expressionStatement_numbers (assignment_numbers hr n)

theorem declarationOrError_numbers (n : Nat) :
    (declarationOrError n r).Numbers [] Stmt.marks := by
  refine numbers_peek.bind fun t => ?_
  split
  · exact numbers_advance.bind fun _ => classDeclaration_numbers hr n
  · exact numbers_advance.bind fun _ => (function_numbers hr "function" n).bind fun _ =>
      numbers_pure (.refl _)
  · exact numbers_advance.bind fun _ => variableDeclaration_numbers hr
  · exact statement_numbers hr n

/-- A declaration in error is dropped, and its numbers are not used again. -/
theorem declaration_numbers (n : Nat) :
    (declaration n r).Numbers [] fun s? => Stmt.marksAll s?.toList := by
  intro s
  have counts := declarationOrError_numbers hr n s
  unfold declaration
  revert counts
  cases declarationOrError n r s with
  | ok stmt s' => exact fun counts => counts.mono (by simp [Stmt.marksAll, List.Subperm.refl])
  | error e s' =>
    intro onward
    constructor
    · simpa using onward
    · simp [Stmt.marksAll]

omit hr

theorem rules_number (n : Nat) : Rules.Number (rules n) := by
  induction n with
  | zero =>
    exact ⟨numbers_failHere _, numbers_failHere _, numbers_failHere _, numbers_pure (.refl _)⟩
  | succ n ih =>
    exact ⟨assignment_numbers ih n, unary_numbers ih n, statement_numbers ih n,
      declaration_numbers ih n⟩

theorem programItems_numbers {r : Rules} (hr : Rules.Number r) (n : Nat) (seen : List (Stmt RefId)) :
    (programItems r n seen).Numbers (Stmt.marksAll seen.reverse) Stmt.marksAll := by
  induction n generalizing seen with
  | zero => exact numbers_pure (.refl _)
  | succ n ih =>
    refine numbers_atEnd.bind fun _ => .ite (numbers_pure (.refl _)) ?_
    refine (hr.declaration.keeping _).bind fun s? => ?_
    cases s? with
    | none =>
      have same := ih seen
      rwa [← List.append_nil (Stmt.marksAll seen.reverse)] at same
    | some s =>
      have more := ih (s :: seen)
      rwa [List.reverse_cons, Stmt.marksAll_append] at more

theorem wholeExpression_numbers {r : Rules} (hr : Rules.Number r) :
    (wholeExpression r).Numbers [] Expr.marks :=
  hr.expression.bind fun _ => numbers_atEnd.bind fun _ =>
    .ite (numbers_pure (.refl _)) (numbers_failHere _)

end Parser

section

variable (tokens : List Token) (firstRef : RefId)

/-- **The references of parsed statements have numbers of their own**, whatever the tokens are. They
are among those that the parse has taken from the counter. -/
theorem parseProgram_numbers :
    firstRef ≤ (parseProgram tokens firstRef).nextRef ∧
      Stmt.marksAll (parseProgram tokens firstRef).result <+~
        List.Ico firstRef (parseProgram tokens firstRef).nextRef := by
  have counts := Parser.programItems_numbers (Parser.rules_number (tokens.length + 1))
    (tokens.length + 1) [] (.start tokens firstRef)
  simp only [parseProgram]
  revert counts
  cases Parser.programItems (Parser.rules (tokens.length + 1)) (tokens.length + 1) []
      (.start tokens firstRef) with
  | ok statements s => exact id
  | error e s => exact fun onward => ⟨onward, List.nil_subperm⟩

/-- The references of a parsed expression have numbers of their own. -/
theorem parseExpression_numbers :
    firstRef ≤ (parseExpression tokens firstRef).nextRef ∧
      Expr.marks? (parseExpression tokens firstRef).result <+~
        List.Ico firstRef (parseExpression tokens firstRef).nextRef := by
  have counts := Parser.wholeExpression_numbers (Parser.rules_number (tokens.length + 1))
    (.start tokens firstRef)
  simp only [parseExpression]
  revert counts
  cases Parser.wholeExpression (Parser.rules (tokens.length + 1)) (.start tokens firstRef) with
  | ok e s => exact id
  | error e s => exact fun onward => ⟨onward, List.nil_subperm⟩

end

end Lox
