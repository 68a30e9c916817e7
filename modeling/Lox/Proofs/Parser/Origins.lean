import Lox.Proofs.Parser.Gives
import Lox.Proofs.Parser.PairedStatements
import Lox.Proofs.Syntax.Origins

/-!
# Parsed trees are made of tokens

Whatever tokens are parsed, and whether or not they are in error, the lines and the names of the
trees that come out are those of tokens of the list, and no branch and no body of a loop is a
declaration. An error is at a token of the list, too. Only a list without an end is read as if one
more token stood there.
-/

namespace Lox

namespace Parser

variable {ok : Token → Prop}

/-- What the rules for the rest of the tokens give. -/
structure Rules.GiveFrom (ok : Token → Prop) (r : Rules) : Prop where
  expression : r.expression.Gives ok (·.From ok)
  unary : r.unary.Gives ok (·.From ok)
  statement : r.statement.Gives ok fun s => s.isDeclaration = false ∧ s.From ok
  declaration : r.declaration.Gives ok fun s? => ∀ s ∈ s?, s.From ok

theorem expectName_from (sort : String) : (expectName sort).Gives ok (·.From ok) := by
  refine (gives_expectName sort).mono ?_
  rintro name ⟨t, isOk, identifier, rfl⟩
  exact ⟨t, isOk, identifier, rfl⟩

/-! ## Expressions -/

theorem chain_from {operator : Kind → Option BinaryOp} {operand : Parser (Expr RefId)}
    (hr : operand.Gives ok (·.From ok)) (n : Nat) {left : Expr RefId} (hl : left.From ok) :
    (chain operator operand n left).Gives ok (·.From ok) := by
  induction n generalizing left with
  | zero => exact gives_pure hl
  | succ n ih =>
    refine gives_peek.bind fun t _ => ?_
    cases operator t.kind with
    | none => exact gives_pure hl
    | some op =>
      exact gives_advance.bind fun _ isOk => hr.bind fun _ made => ih ⟨⟨_, isOk, rfl⟩, hl, made⟩

theorem logicalChain_from {keyword : Keyword} {op : LogicalOp} {operand : Parser (Expr RefId)}
    (hr : operand.Gives ok (·.From ok)) (n : Nat) {left : Expr RefId} (hl : left.From ok) :
    (logicalChain keyword op operand n left).Gives ok (·.From ok) := by
  induction n generalizing left with
  | zero => exact gives_pure hl
  | succ n ih =>
    refine (gives_acceptKeyword keyword).bind fun taken _ => .ite ?_ (gives_pure hl)
    exact hr.bind fun _ made => ih ⟨hl, made⟩

variable {r : Rules} (hr : Rules.GiveFrom ok r)
include hr

theorem arguments_from (n : Nat) {seen : List (Expr RefId)} (hs : ∀ e ∈ seen, e.From ok) :
    (arguments r n seen).Gives ok fun es => ∀ e ∈ es, e.From ok := by
  induction n generalizing seen with
  | zero => exact gives_pure fun e he => hs e (List.mem_reverse.1 he)
  | succ n ih =>
    refine .afterReport (hr.expression.bind fun e made => ?_)
    have more := List.forall_mem_cons.2 ⟨made, hs⟩
    refine (gives_acceptSymbol .comma).bind fun _ _ => .ite (ih more) ?_
    exact gives_pure fun e' he' => more e' (List.mem_reverse.1 he')

theorem callOf_from (n : Nat) {callee : Expr RefId} (hc : callee.From ok) :
    (callOf n r callee).Gives ok (·.From ok) := by
  refine (gives_checkSymbol .rightParen).bind fun _ _ => ?_
  refine .choose (gives_pure (by simp)) (arguments_from hr n (by simp)) fun es hes => ?_
  exact (gives_expectSymbol _ _).bind fun _ isOk =>
    gives_pure ⟨hc, ⟨_, isOk, rfl⟩, Expr.fromAll_iff.2 hes⟩

theorem suffixes_from (n : Nat) {object : Expr RefId} (ho : object.From ok) :
    (suffixes r n object).Gives ok (·.From ok) := by
  induction n generalizing object with
  | zero => exact gives_pure ho
  | succ n ih =>
    refine (gives_acceptSymbol .leftParen).bind fun _ _ => .ite ?_ ?_
    · exact (callOf_from hr n ho).bind fun _ made => ih made
    · refine (gives_acceptSymbol .dot).bind fun _ _ => .ite ?_ (gives_pure ho)
      exact (expectName_from _).bind fun _ named => ih ⟨ho, named⟩

omit hr in
theorem superMethod_from {line : Nat} (hl : LineFrom ok line) :
    (superMethod line).Gives ok (·.From ok) :=
  (gives_expectSymbol _ _).bind fun _ _ => (expectName_from _).bind fun _ named =>
    gives_freshRef.bind fun _ _ => gives_pure ⟨hl, named⟩

theorem grouping_from : (grouping r).Gives ok (·.From ok) :=
  hr.expression.bind fun _ made => (gives_expectSymbol _ _).bind fun _ _ => gives_pure made

theorem primary_from : (primary r).Gives ok (·.From ok) := by
  refine gives_peek.bind fun t isOk => ?_
  split
  case h_8 kind =>
    refine gives_advance.bind fun _ _ => (gives_reference _).bind fun ref same => gives_pure ?_
    simp only [Expr.From, same]
    exact ⟨t, isOk, kind, rfl⟩
  case h_6 =>
    exact gives_advance.bind fun _ _ => gives_freshRef.bind fun _ _ => gives_pure ⟨t, isOk, rfl⟩
  case h_7 => exact gives_advance.bind fun _ _ => superMethod_from ⟨t, isOk, rfl⟩
  case h_9 => exact gives_advance.bind fun _ _ => grouping_from hr
  case h_10 => exact gives_failHere _
  all_goals exact gives_advance.bind fun _ _ => gives_pure trivial

theorem call_from (n : Nat) : (call n r).Gives ok (·.From ok) :=
  (primary_from hr).bind fun _ made => suffixes_from hr n made

theorem unary_from (n : Nat) : (unary n r).Gives ok (·.From ok) := by
  refine gives_peek.bind fun t _ => ?_
  split
  · exact gives_advance.bind fun _ isOk => hr.unary.bind fun _ made =>
      gives_pure ⟨⟨_, isOk, rfl⟩, made⟩
  · exact call_from hr n

theorem factor_from (n : Nat) : (factor n r).Gives ok (·.From ok) :=
  (unary_from hr n).bind fun _ made => chain_from (unary_from hr n) n made

theorem term_from (n : Nat) : (term n r).Gives ok (·.From ok) :=
  (factor_from hr n).bind fun _ made => chain_from (factor_from hr n) n made

theorem comparison_from (n : Nat) : (comparison n r).Gives ok (·.From ok) :=
  (term_from hr n).bind fun _ made => chain_from (term_from hr n) n made

theorem equality_from (n : Nat) : (equality n r).Gives ok (·.From ok) :=
  (comparison_from hr n).bind fun _ made => chain_from (comparison_from hr n) n made

theorem conjunction_from (n : Nat) : (conjunction n r).Gives ok (·.From ok) :=
  (equality_from hr n).bind fun _ made => logicalChain_from (equality_from hr n) n made

theorem disjunction_from (n : Nat) : (disjunction n r).Gives ok (·.From ok) :=
  (conjunction_from hr n).bind fun _ made => logicalChain_from (conjunction_from hr n) n made

omit hr in
theorem assignTo_from {target value : Expr RefId} {equals : Token} (ht : target.From ok)
    (he : ok equals) (hv : value.From ok) :
    (assignTo target equals value).Gives ok (·.From ok) := by
  unfold assignTo
  split
  · exact gives_pure ⟨ht, hv⟩
  · exact gives_pure ⟨ht.1, ht.2, hv⟩
  · exact (gives_report _ he).bind fun _ _ => gives_pure ht

theorem assignment_from (n : Nat) : (assignment n r).Gives ok (·.From ok) := by
  refine (disjunction_from hr n).bind fun _ target => ?_
  refine (gives_acceptSymbol .equal).bind fun _ _ => .ite ?_ (gives_pure target)
  exact gives_previous.bind fun _ isOk => hr.expression.bind fun _ value =>
    assignTo_from target isOk value

/-! ## Statements -/

theorem blockItems_from (n : Nat) {seen : List (Stmt RefId)} (hs : ∀ s ∈ seen, s.From ok) :
    (blockItems r n seen).Gives ok fun ss => ∀ s ∈ ss, s.From ok := by
  induction n generalizing seen with
  | zero => exact gives_pure fun s h => hs s (List.mem_reverse.1 h)
  | succ n ih =>
    refine (gives_checkSymbol .rightBrace).bind fun _ _ => gives_atEnd.bind fun _ _ => .ite ?_ ?_
    · exact gives_pure fun s h => hs s (List.mem_reverse.1 h)
    · refine hr.declaration.bind fun s? made => ?_
      cases s? with
      | none => exact ih hs
      | some s => exact ih (List.forall_mem_cons.2 ⟨made s rfl, hs⟩)

theorem block_from (n : Nat) :
    (block n r).Gives ok (Stmt.FromAll ok) :=
  (blockItems_from hr n (by simp)).bind fun _ made => (gives_expectSymbol _ _).bind fun _ _ =>
    gives_pure (Stmt.fromAll_iff.2 made)

omit hr in
theorem params_from (n : Nat) {seen : List Name} (hs : ∀ p ∈ seen, p.From ok) :
    (params n seen).Gives ok fun ps => ∀ p ∈ ps, p.From ok := by
  induction n generalizing seen with
  | zero => exact gives_pure fun p h => hs p (List.mem_reverse.1 h)
  | succ n ih =>
    refine .afterReport ((expectName_from _).bind fun p named => ?_)
    have more := List.forall_mem_cons.2 ⟨named, hs⟩
    refine (gives_acceptSymbol .comma).bind fun _ _ => .ite (ih more) ?_
    exact gives_pure fun p' hp' => more p' (List.mem_reverse.1 hp')

theorem function_from (sort : String) (n : Nat) : (function sort n r).Gives ok (·.From ok) := by
  refine (expectName_from _).bind fun _ named => (gives_expectSymbol _ _).bind fun _ _ => ?_
  refine (gives_checkSymbol .rightParen).bind fun _ _ => ?_
  refine .choose (gives_pure (by simp)) (params_from n (by simp)) fun ps hps => ?_
  exact (gives_expectSymbol _ _).bind fun _ _ => (gives_expectSymbol _ _).bind fun _ _ =>
    (block_from hr n).bind fun _ made => gives_pure ⟨named, hps, made⟩

theorem methods_from (n : Nat) {seen : List (FunctionDecl RefId)} (hs : ∀ d ∈ seen, d.From ok) :
    (methods r n seen).Gives ok fun ds => ∀ d ∈ ds, d.From ok := by
  induction n generalizing seen with
  | zero => exact gives_pure fun d h => hs d (List.mem_reverse.1 h)
  | succ n ih =>
    refine (gives_checkSymbol .rightBrace).bind fun _ _ => gives_atEnd.bind fun _ _ => .ite ?_ ?_
    · exact gives_pure fun d h => hs d (List.mem_reverse.1 h)
    · exact (function_from hr "method" n).bind fun d made =>
        ih (List.forall_mem_cons.2 ⟨made, hs⟩)

omit hr in
theorem superclass_from : superclass.Gives ok fun r? => ∀ r ∈ r?, r.name.From ok := by
  refine (gives_acceptSymbol .less).bind fun _ _ => .ite ?_ (gives_pure (by simp))
  refine (expectName_from _).bind fun _ named => (gives_reference _).bind fun ref same => ?_
  refine gives_pure fun r' hr' => ?_
  cases hr'
  simpa only [same] using named

theorem classDeclaration_from (n : Nat) : (classDeclaration n r).Gives ok (·.From ok) :=
  (expectName_from _).bind fun _ named => superclass_from.bind fun _ parent =>
    (gives_expectSymbol _ _).bind fun _ _ => (methods_from hr n (by simp)).bind fun _ made =>
      (gives_expectSymbol _ _).bind fun _ _ =>
        gives_pure ⟨named, parent, FunctionDecl.fromAll_iff.2 made⟩

theorem optional_from : (some <$> r.expression).Gives ok (Expr.From? ok) := .map hr.expression

theorem variableDeclaration_from : (variableDeclaration r).Gives ok (·.From ok) := by
  refine (expectName_from _).bind fun _ named => (gives_acceptSymbol .equal).bind fun _ _ => ?_
  refine .choose (optional_from hr) (gives_pure trivial) fun _ initializer => ?_
  exact (gives_expectSymbol _ _).bind fun _ _ => gives_pure ⟨named, initializer⟩

omit hr in
theorem expressionStatement_from {e : Parser (Expr RefId)}
    (he : e.Gives ok (·.From ok)) :
    (expressionStatement e).Gives ok fun s => s.isDeclaration = false ∧ s.From ok :=
  he.bind fun _ made => (gives_expectSymbol _ _).bind fun _ _ => gives_pure ⟨rfl, made⟩

theorem forInitializer_from :
    (forInitializer r).Gives ok fun s? => ∀ s ∈ s?, s.From ok := by
  have some_from {p : Parser (Stmt RefId)} (hp : p.Gives ok (·.From ok)) :
      (some <$> p).Gives ok fun s? => ∀ s ∈ s?, s.From ok :=
    .map (hp.mono fun s made s' hs' => by cases hs'; exact made)
  refine (gives_acceptSymbol .semicolon).bind fun _ _ => .ite (gives_pure (by simp)) ?_
  refine (gives_acceptKeyword .varKw).bind fun _ _ => .ite ?_ ?_
  · exact some_from (variableDeclaration_from hr)
  · exact some_from ((expressionStatement_from hr.expression).mono fun _ h => h.2)

omit hr in
theorem forLoop_from {initializer : Option (Stmt RefId)} {condition : Expr RefId}
    {increment : Option (Expr RefId)} {body : Stmt RefId}
    (hi : ∀ s ∈ initializer, s.From ok) (hc : condition.From ok)
    (hn : Expr.From? ok increment) (hb : body.isDeclaration = false ∧ body.From ok) :
    (forLoop initializer condition increment body).isDeclaration = false ∧
      (forLoop initializer condition increment body).From ok := by
  cases increment with
  | none =>
    cases initializer with
    | none => exact ⟨rfl, hc, hb⟩
    | some s => exact ⟨rfl, hi s rfl, ⟨hc, hb⟩, trivial⟩
  | some e =>
    cases initializer with
    | none => exact ⟨rfl, hc, rfl, hb.2, hn, trivial⟩
    | some s => exact ⟨rfl, hi s rfl, ⟨hc, rfl, hb.2, hn, trivial⟩, trivial⟩

theorem forStatement_from :
    (forStatement r).Gives ok fun s => s.isDeclaration = false ∧ s.From ok := by
  refine (gives_expectSymbol _ _).bind fun _ _ => (forInitializer_from hr).bind fun _ hi => ?_
  refine (gives_checkSymbol .semicolon).bind fun _ _ => ?_
  refine .choose (gives_pure trivial) hr.expression fun _ hc => ?_
  refine (gives_expectSymbol _ _).bind fun _ _ => ?_
  refine (gives_checkSymbol .rightParen).bind fun _ _ => ?_
  refine .choose (gives_pure trivial) (optional_from hr) fun _ hn => ?_
  exact (gives_expectSymbol _ _).bind fun _ _ => hr.statement.bind fun _ hb =>
    gives_pure (forLoop_from hi hc hn hb)

theorem ifStatement_from :
    (ifStatement r).Gives ok fun s => s.isDeclaration = false ∧ s.From ok := by
  refine (gives_expectSymbol _ _).bind fun _ _ => hr.expression.bind fun _ condition => ?_
  refine (gives_expectSymbol _ _).bind fun _ _ => hr.statement.bind fun _ thenBranch => ?_
  refine (gives_acceptKeyword .elseKw).bind fun _ _ => ?_
  refine .choose (P := fun s? => ∀ s ∈ s?, s.isDeclaration = false ∧ s.From ok)
    (.map (hr.statement.mono fun s hs s' hs' => by cases hs'; exact hs))
    (gives_pure (by simp)) fun s? elseBranch => gives_pure ?_
  cases s? with
  | none => exact ⟨rfl, condition, thenBranch⟩
  | some s => exact ⟨rfl, condition, thenBranch, elseBranch s rfl⟩

theorem whileStatement_from :
    (whileStatement r).Gives ok fun s => s.isDeclaration = false ∧ s.From ok :=
  (gives_expectSymbol _ _).bind fun _ _ => hr.expression.bind fun _ condition =>
    (gives_expectSymbol _ _).bind fun _ _ => hr.statement.bind fun _ body =>
      gives_pure ⟨rfl, condition, body⟩

theorem returnStatement_from {line : Nat} (hl : LineFrom ok line) :
    (returnStatement line r).Gives ok fun s => s.isDeclaration = false ∧ s.From ok :=
  (gives_checkSymbol _).bind fun _ _ =>
    .choose (gives_pure trivial) (optional_from hr) fun _ value =>
      (gives_expectSymbol _ _).bind fun _ _ => gives_pure ⟨rfl, hl, value⟩

theorem printStatement_from :
    (printStatement r).Gives ok fun s => s.isDeclaration = false ∧ s.From ok :=
  hr.expression.bind fun _ value => (gives_expectSymbol _ _).bind fun _ _ =>
    gives_pure ⟨rfl, value⟩

theorem statement_from (n : Nat) :
    (statement n r).Gives ok fun s => s.isDeclaration = false ∧ s.From ok := by
  refine gives_peek.bind fun t isOk => ?_
  split
  · exact gives_advance.bind fun _ _ => forStatement_from hr
  · exact gives_advance.bind fun _ _ => ifStatement_from hr
  · exact gives_advance.bind fun _ _ => whileStatement_from hr
  · exact gives_advance.bind fun _ _ => returnStatement_from hr ⟨t, isOk, rfl⟩
  · exact gives_advance.bind fun _ _ => (block_from hr n).bind fun _ body =>
      gives_pure ⟨rfl, body⟩
  · exact gives_advance.bind fun _ _ => printStatement_from hr
  · exact expressionStatement_from (assignment_from hr n)

theorem declarationOrError_from (n : Nat) : (declarationOrError n r).Gives ok (·.From ok) := by
  refine gives_peek.bind fun t _ => ?_
  split
  · exact gives_advance.bind fun _ _ => classDeclaration_from hr n
  · exact gives_advance.bind fun _ _ => (function_from hr "function" n).bind fun _ made =>
      gives_pure made
  · exact gives_advance.bind fun _ _ => variableDeclaration_from hr
  · exact (statement_from hr n).mono fun _ h => h.2

theorem declaration_from (n : Nat) :
    (declaration n r).Gives ok fun s? => ∀ s ∈ s?, s.From ok := by
  intro s hs
  have given := declarationOrError_from hr n s hs
  unfold declaration
  revert given
  cases declarationOrError n r s with
  | ok stmt s' =>
    exact fun given => ⟨fun t ht => Option.some.inj ht ▸ given.1, given.2⟩
  | error e s' =>
    exact fun given => ⟨fun t ht => by simp at ht, (given.2.record given.1).synchronize⟩

omit hr

theorem rules_from (n : Nat) : Rules.GiveFrom ok (rules n) := by
  induction n with
  | zero =>
    exact ⟨gives_failHere _, gives_failHere _, gives_failHere _, gives_pure (by simp)⟩
  | succ n ih =>
    exact ⟨assignment_from ih n, unary_from ih n, statement_from ih n, declaration_from ih n⟩

theorem programItems_from {r : Rules} (hr : Rules.GiveFrom ok r) (n : Nat)
    {seen : List (Stmt RefId)} (hs : ∀ s ∈ seen, s.From ok) :
    (programItems r n seen).Gives ok fun ss => ∀ s ∈ ss, s.From ok := by
  induction n generalizing seen with
  | zero => exact gives_pure fun s h => hs s (List.mem_reverse.1 h)
  | succ n ih =>
    refine gives_atEnd.bind fun _ _ => .ite ?_ ?_
    · exact gives_pure fun s h => hs s (List.mem_reverse.1 h)
    · refine hr.declaration.bind fun s? made => ?_
      cases s? with
      | none => exact ih hs
      | some s => exact ih (List.forall_mem_cons.2 ⟨made s rfl, hs⟩)

end Parser

/-! ## The first token -/

/-- Both parses are in the same state, but for the token taken last. -/
def Pairing.sameRest : Pairing where
  related s t := s.rest = t.rest ∧ s.errors = t.errors ∧ s.nextRef = t.nextRef
  number id := id
  semicolons := True
  peek h := by rw [ParseState.peek, h.1, ParseState.peek]
  advance {s t} h _ _ := by
    obtain ⟨rest, errors, nextRef⟩ := h
    simp only [ParseState.advance, rest]
    split
    · exact ⟨rest, errors, nextRef⟩
    · split
      · exact ⟨rest, errors, nextRef⟩
      · exact ⟨rfl, errors, nextRef⟩
  record h e := ⟨h.1, congrArg (·.push e) h.2.1, h.2.2⟩
  nextRef h := h.2.2
  fresh h := ⟨h.1, h.2.1, congrArg (· + 1) h.2.2⟩

/-- The rules of a parse do the same whichever token was taken before the first one. -/
theorem Parser.rules_sameRest (n : Nat) : Pairing.sameRest.RulesAlike n (rules n) (rules n) := by
  rw [rules_eq]
  exact rulesAbove_alike trivial (Nat.le_refl n) (Nat.le_refl n)

/-- Results have the property `P`, and errors are at tokens that are `ok`. -/
def Parser.Outcome {α : Type} (ok : Token → Prop) (P : α → Prop) :
    EStateM.Result SyntaxError ParseState α → Prop
  | .ok a s => P a ∧ ∀ e ∈ s.errors, ok e.token
  | .error e s => ok e.token ∧ ∀ e ∈ s.errors, ok e.token

section

variable {ok : Token → Prop} {tokens : List Token} (all : ∀ t ∈ tokens, ok t)
  (ends : ok Token.missingEnd ∨ ∃ t ∈ tokens, t.isEnd = true) (firstRef : RefId)
include all ends

/-- Before the first token none has been taken, and a rule that does the same whichever was gives
what it gives behind any token. -/
theorem Parser.Gives.outcome {α : Type} {n m : Nat} {p : Parser α} {φ : α → α} {P : α → Prop}
    (given : p.Gives ok P) (alike : Pairing.sameRest.Alike n m p p φ) (same : ∀ a, φ a = a)
    (few : tokens.length < n) : Outcome ok P (p (.start tokens firstRef)) := by
  obtain ⟨t, isOk⟩ : ∃ t, ok t := ends.elim (⟨_, ·⟩) fun ⟨t, mem, _⟩ => ⟨t, all t mem⟩
  have result := given ⟨tokens, t, #[], firstRef⟩ ⟨all, isOk, ends, by simp⟩
  have paired := alike (.start tokens firstRef) ⟨tokens, t, #[], firstRef⟩ ⟨rfl, rfl, rfl⟩ few
  revert result paired
  generalize p ⟨tokens, t, #[], firstRef⟩ = y
  generalize p (.start tokens firstRef) = x
  intro result paired
  cases paired with
  | ok equal related =>
    rw [equal, same]
    exact ⟨result.1, related.2.1 ▸ result.2.errors⟩
  | error related => exact ⟨result.1, related.2.1 ▸ result.2.errors⟩

open Lox.Parser

/-- **Parsed statements are made of the tokens**, and errors are at some of them. -/
theorem parseProgram_from :
    Stmt.FromAll ok (parseProgram tokens firstRef).result ∧
      ∀ e ∈ (parseProgram tokens firstRef).errors, ok e.token := by
  have given : (programItems (rules (tokens.length + 1)) (tokens.length + 1) []).Gives ok
      fun ss => ∀ s ∈ ss, s.From ok :=
    programItems_from (rules_from _) _ (by simp)
  have alike := programItems_alike (rules_sameRest (tokens.length + 1)) (Nat.le_refl _) []
    (Nat.le_refl _) (Nat.le_refl _)
  have outcome := given.outcome all ends firstRef alike (List.map_id'' Stmt.mapMarks_id)
    (Nat.lt_succ_self _)
  simp only [parseProgram]
  revert outcome
  cases programItems (rules (tokens.length + 1)) (tokens.length + 1) []
      (.start tokens firstRef) with
  | ok statements s =>
    exact fun outcome => ⟨Stmt.fromAll_iff.2 outcome.1, by simpa using outcome.2⟩
  | error e s =>
    exact fun outcome => ⟨trivial, by simpa [or_imp, forall_and, outcome.1] using outcome.2⟩

/-- **A parsed expression is made of the tokens**, and errors are at some of them. -/
theorem parseExpression_from :
    Expr.From? ok (parseExpression tokens firstRef).result ∧
      ∀ e ∈ (parseExpression tokens firstRef).errors, ok e.token := by
  have rules : Rules.GiveFrom ok (Parser.rules (tokens.length + 1)) := rules_from _
  have given : (wholeExpression (Parser.rules (tokens.length + 1))).Gives ok (·.From ok) :=
    rules.expression.bind fun _ made => gives_atEnd.bind fun _ _ =>
      .ite (gives_pure made) (gives_failHere _)
  have alike := wholeExpression_alike (rules_sameRest (tokens.length + 1)) (Nat.le_refl _)
  have outcome := given.outcome all ends firstRef alike Expr.mapMarks_id (Nat.lt_succ_self _)
  simp only [parseExpression]
  revert outcome
  cases wholeExpression (Parser.rules (tokens.length + 1)) (.start tokens firstRef) with
  | ok e s => exact fun outcome => ⟨outcome.1, by simpa using outcome.2⟩
  | error e s =>
    exact fun outcome => ⟨trivial, by simpa [or_imp, forall_and, outcome.1] using outcome.2⟩

end

section

variable {allowed : String → Prop} (tokens : List Token) (firstRef : RefId)
  (named : ∀ t ∈ tokens, t.Names allowed)
include named

/-- **Parsed statements are shaped.** Their names are texts of identifiers, and no branch and no
body of a loop is a declaration, whatever the tokens are. -/
theorem parseProgram_shaped : Stmt.ShapedAll allowed (parseProgram tokens firstRef).result :=
  (parseProgram_from named (.inl nofun) firstRef).1.shaped

/-- The names of a parsed expression are texts of identifiers. -/
theorem parseExpression_shaped :
    Expr.Shaped? allowed (parseExpression tokens firstRef).result :=
  (parseExpression_from named (.inl nofun) firstRef).1.shaped

end

end Lox
