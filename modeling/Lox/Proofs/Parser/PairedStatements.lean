import Lox.Proofs.Parser.PairedExpressions

/-!
# Statements side by side

All rules of a parse do the same on related states if semicolons may be taken as well. A declaration
that begins before the end takes a token, also where it is in error. So what is read does not depend
on the bounds of the loops, nor on the rules for no tokens at all, and `rulesAbove` may have any.
-/

namespace Lox

/-- The rules that a parse starts over with do the same, where fewer than `n` tokens are left. -/
structure Pairing.RulesAlike (P : Pairing) (n : Nat) (r r' : Rules) : Prop
    extends P.ExpressionsAlike n r r' where
  statement : P.Progress n r.statement r'.statement P.stmt
  /-- A declaration that begins before the end takes a token. -/
  declaration : ∀ m < n, P.AlikeWhere (fun t => t.rest.length < m + 1 ∧ t.atEnd = false) m
    r.declaration r'.declaration (Option.map P.stmt)

theorem Pairing.RulesAlike.fewer {P : Pairing} {n k : Nat} {r r' : Rules} (h : P.RulesAlike n r r')
    (le : k ≤ n) : P.RulesAlike k r r' where
  expression := h.expression.fewer le
  unary := h.unary.fewer le
  statement := h.statement.fewer le
  declaration m lt := h.declaration m (Nat.lt_of_lt_of_le lt le)

namespace Parser

open Pairing

variable {P : Pairing} {n m : Nat} {r r' : Rules} (full : P.semicolons)
  (hr : P.RulesAlike n r r')

/-! ## Lists -/

include hr in
/-- Declarations up to where the rules stop. Each round takes a token. -/
theorem items_alike {f g : List (Stmt RefId) → Parser (List (Stmt RefId))} (few : m + 1 ≤ n)
    (seen : List (Stmt RefId))
    (h : ∀ seen, P.Alike m m (f (seen.map P.stmt)) (g seen) (List.map P.stmt)) :
    P.AlikeWhere (fun t => t.rest.length < m + 1 ∧ t.atEnd = false) (m + 1)
      (r.declaration >>= fun
        | some s => f (s :: seen.map P.stmt)
        | none => f (seen.map P.stmt))
      (r'.declaration >>= fun
        | some s => g (s :: seen)
        | none => g seen) (List.map P.stmt) := by
  refine ((hr.declaration m few).bind fun s? => ?_).le (Nat.le_succ m)
  cases s? with
  | none => exact h seen
  | some s => exact h (s :: seen)

include hr in
theorem blockItems_alike (few : m ≤ n) (seen : List (Stmt RefId)) {k₁ k₂ : Nat} (le₁ : m ≤ k₁)
    (le₂ : m ≤ k₂) :
    P.Alike m m (blockItems r k₁ (seen.map P.stmt)) (blockItems r' k₂ seen) (List.map P.stmt) := by
  induction le₁, le₂ using bounds_induction generalizing seen with
  | none => exact alike_zero
  | more m k₁ k₂ le₁ le₂ ih =>
    refine (alike_check _).bind fun found => alike_unlessEnded found (alike_pure (by simp)) ?_
    exact items_alike hr few seen fun seen => ih (Nat.le_of_succ_le few) seen

include hr in
theorem block_alike (few : m ≤ n) {k₁ k₂ : Nat} (le₁ : m ≤ k₁) (le₂ : m ≤ k₂) :
    P.Alike m m (block k₁ r) (block k₂ r') (List.map P.stmt) :=
  (blockItems_alike hr few [] le₁ le₂).bind fun _ =>
    (alike_expectSymbol _ (by decide)).bind fun _ => alike_pure rfl

theorem params_alike (seen : List Name) {k₁ k₂ : Nat} (le₁ : m ≤ k₁) (le₂ : m ≤ k₂) :
    P.Alike m m (params k₁ seen) (params k₂ seen) fun names => names := by
  induction le₁, le₂ using bounds_induction generalizing seen with
  | none => exact alike_zero
  | more m k₁ k₂ le₁ le₂ ih =>
    refine alike_afterReport Iff.rfl ((alike_expectName _).bind fun param => ?_)
    refine alike_acceptOr nofun ?_ (alike_pure rfl)
    exact (ih (param :: seen)).le (Nat.le_succ m)

include hr in
/-- A function takes at least its name. -/
theorem function_progress (sort : String) {k₁ k₂ : Nat} (le₁ : n ≤ k₁) (le₂ : n ≤ k₂) :
    P.Progress (n + 1) (function sort k₁ r) (function sort k₂ r') P.function := by
  intro m lt
  have few : m ≤ n := Nat.le_of_lt_succ lt
  refine (expectName_progress _ m lt).bind fun name => ?_
  refine (alike_expectSymbol _ (by decide)).bind fun _ => (alike_check _).bind fun _ => ?_
  refine AlikeWhere.choose (alike_pure rfl)
    (params_alike [] (Nat.le_trans few le₁) (Nat.le_trans few le₂)) fun names => ?_
  refine (alike_expectSymbol _ (by decide)).bind fun _ =>
    (alike_expectSymbol _ (by decide)).bind fun _ => ?_
  refine (block_alike hr few (Nat.le_trans few le₁) (Nat.le_trans few le₂)).bind fun body =>
    alike_pure ?_
  simp [Pairing.function, Pairing.stmt, FunctionDecl.mapMarks, Stmt.mapMarksAll_eq_map]

include hr in
theorem methods_alike (few : m ≤ n) (seen : List (FunctionDecl RefId)) {k₁ k₂ : Nat} (le₁ : m ≤ k₁)
    (le₂ : m ≤ k₂) :
    P.Alike m m (methods r k₁ (seen.map P.function)) (methods r' k₂ seen)
      (List.map P.function) := by
  induction le₁, le₂ using bounds_induction generalizing seen with
  | none => exact alike_zero
  | more m k₁ k₂ le₁ le₂ ih =>
    have few' : m ≤ n := Nat.le_of_succ_le few
    refine (alike_check _).bind fun found => alike_unlessEnded found (alike_pure (by simp)) ?_
    have taken := function_progress (hr.fewer few') "method" le₁ le₂ m (Nat.lt_succ_self m)
    refine (taken.mono (fun _ fits => fits.1) (Nat.le_refl m)).bind fun d => ?_
    exact (ih few' (d :: seen)).le (Nat.le_succ m)

/-! ## Declarations -/

theorem superclass_alike : P.Alike m m superclass superclass (Option.map P.reference) := by
  refine (alike_accept (by nofun)).bind fun _ => AlikeWhere.ite Iff.rfl ?_ (alike_pure rfl)
  exact (alike_expectName _).bind fun name => (alike_reference name).bind fun _ => alike_pure rfl

include hr in
theorem classDeclaration_alike (few : m ≤ n) {k₁ k₂ : Nat} (le₁ : m ≤ k₁) (le₂ : m ≤ k₂) :
    P.Alike m m (classDeclaration k₁ r) (classDeclaration k₂ r') P.stmt := by
  refine (alike_expectName _).bind fun name => superclass_alike.bind fun parent => ?_
  refine (alike_expectSymbol _ (by decide)).bind fun _ => ?_
  refine (methods_alike hr few [] le₁ le₂).bind fun body => ?_
  refine (alike_expectSymbol _ (by decide)).bind fun _ => alike_pure ?_
  simp [Pairing.stmt, Pairing.function, Pairing.reference, Stmt.mapMarks,
    FunctionDecl.mapMarksAll_eq_map]

/-- A part that may be missing, behind the token that announces it. -/
theorem some_alike {α : Type} {p q : Parser α} {φ : α → α} (h : P.Alike m m p q φ) :
    P.Alike m m (some <$> p) (some <$> q) (Option.map φ) :=
  h.map fun _ => rfl

include full hr in
theorem variableDeclaration_alike (few : m ≤ n) :
    P.Alike m m (variableDeclaration r) (variableDeclaration r') P.stmt := by
  refine (alike_expectName _).bind fun name => (alike_accept (by nofun)).bind fun _ => ?_
  refine AlikeWhere.choose (some_alike (hr.expression.keep few)) (alike_pure rfl)
    fun initializer => ?_
  exact (alike_expectSemicolon full _).bind fun _ => alike_pure rfl

/-! ## Statements -/

include full in
theorem expressionStatement_alike {p q : Parser (Expr RefId)} {k : Nat}
    (h : P.Alike k m p q P.expr) :
    P.Alike k m (expressionStatement p) (expressionStatement q) P.stmt :=
  h.bind fun _ => (alike_expectSemicolon full _).bind fun _ => alike_pure rfl

include full hr in
theorem forInitializer_alike (few : m ≤ n) :
    P.Alike m m (forInitializer r) (forInitializer r') (Option.map P.stmt) := by
  refine (alike_accept fun _ => full).bind fun _ => AlikeWhere.ite Iff.rfl (alike_pure rfl) ?_
  refine (alike_accept (by nofun)).bind fun _ => AlikeWhere.ite Iff.rfl ?_ ?_
  · exact some_alike (variableDeclaration_alike full hr few)
  · exact some_alike (expressionStatement_alike full (hr.expression.keep few))

/-- A `for` statement stands for the same loop in both parses. -/
theorem forLoop_eq (initializer : Option (Stmt RefId)) (condition : Expr RefId)
    (increment : Option (Expr RefId)) (body : Stmt RefId) :
    forLoop (initializer.map P.stmt) (P.expr condition) (increment.map P.expr) (P.stmt body) =
      P.stmt (forLoop initializer condition increment body) := by
  cases initializer <;> cases increment <;> rfl

include full hr in
theorem forStatement_alike (few : m ≤ n) :
    P.Alike m m (forStatement r) (forStatement r') P.stmt := by
  refine (alike_expectSymbol _ (by decide)).bind fun _ => ?_
  refine (forInitializer_alike full hr few).bind fun initializer => ?_
  refine (alike_check _).bind fun _ => ?_
  refine AlikeWhere.choose (alike_pure rfl) (hr.expression.keep few) fun condition => ?_
  refine (alike_expectSemicolon full _).bind fun _ => (alike_check _).bind fun _ => ?_
  refine AlikeWhere.choose (alike_pure rfl) (some_alike (hr.expression.keep few))
    fun increment => ?_
  refine (alike_expectSymbol _ (by decide)).bind fun _ => ?_
  refine (hr.statement.keep few).bind fun body => ?_
  exact alike_pure (forLoop_eq initializer condition increment body)

include hr in
theorem ifStatement_alike (few : m ≤ n) : P.Alike m m (ifStatement r) (ifStatement r') P.stmt := by
  refine (alike_expectSymbol _ (by decide)).bind fun _ => ?_
  refine (hr.expression.keep few).bind fun condition => ?_
  refine (alike_expectSymbol _ (by decide)).bind fun _ => ?_
  refine (hr.statement.keep few).bind fun thenBranch => (alike_accept (by nofun)).bind fun _ => ?_
  refine AlikeWhere.choose (some_alike (hr.statement.keep few)) (alike_pure rfl)
    fun elseBranch => alike_pure ?_
  cases elseBranch <;> rfl

include hr in
theorem whileStatement_alike (few : m ≤ n) :
    P.Alike m m (whileStatement r) (whileStatement r') P.stmt :=
  (alike_expectSymbol _ (by decide)).bind fun _ => (hr.expression.keep few).bind fun _ =>
    (alike_expectSymbol _ (by decide)).bind fun _ => (hr.statement.keep few).bind fun _ =>
      alike_pure rfl

include full hr in
theorem returnStatement_alike (few : m ≤ n) (line : Nat) :
    P.Alike m m (returnStatement line r) (returnStatement line r') P.stmt := by
  refine (alike_check _).bind fun _ => ?_
  refine AlikeWhere.choose (alike_pure rfl) (some_alike (hr.expression.keep few)) fun value => ?_
  exact (alike_expectSemicolon full _).bind fun _ => alike_pure rfl

include full hr in
theorem printStatement_alike (few : m ≤ n) :
    P.Alike m m (printStatement r) (printStatement r') P.stmt :=
  (hr.expression.keep few).bind fun _ => (alike_expectSemicolon full _).bind fun _ => alike_pure rfl

variable {n₁ n₂ : Nat} (le₁ : n ≤ n₁) (le₂ : n ≤ n₂)

include full hr le₁ le₂ in
theorem statement_progress : P.Progress (n + 1) (statement n₁ r) (statement n₂ r') P.stmt := by
  intro m lt
  have few : m ≤ n := Nat.le_of_lt_succ lt
  refine alike_peek fun next => ?_
  split
  case h_1 kind =>
    refine alike_advance (Token.isEnd_of_kind kind rfl) (fun _ => full) ?_
    exact forStatement_alike full hr few
  case h_2 kind =>
    refine alike_advance (Token.isEnd_of_kind kind rfl) (fun _ => full) ?_
    exact ifStatement_alike hr few
  case h_3 kind =>
    refine alike_advance (Token.isEnd_of_kind kind rfl) (fun _ => full) ?_
    exact whileStatement_alike hr few
  case h_4 kind =>
    refine alike_advance (Token.isEnd_of_kind kind rfl) (fun _ => full) ?_
    exact returnStatement_alike full hr few next.line
  case h_5 kind =>
    refine alike_advance (Token.isEnd_of_kind kind rfl) (fun _ => full) ?_
    refine (block_alike hr few (Nat.le_trans few le₁) (Nat.le_trans few le₂)).bind fun body =>
      alike_pure ?_
    simp [Pairing.stmt, Stmt.mapMarks, Stmt.mapMarksAll_eq_map]
  case h_6 kind =>
    refine alike_advance (Token.isEnd_of_kind kind rfl) (fun _ => full) ?_
    exact printStatement_alike full hr few
  case h_7 =>
    have expression := assignment_progress hr.toExpressionsAlike le₁ le₂ m lt
    exact Alike.at (expressionStatement_alike full expression) next

include full hr le₁ le₂ in
theorem declarationOrError_progress :
    P.Progress (n + 1) (declarationOrError n₁ r) (declarationOrError n₂ r') P.stmt := by
  intro m lt
  have few : m ≤ n := Nat.le_of_lt_succ lt
  have le₁' : m ≤ n₁ := Nat.le_trans few le₁
  have le₂' : m ≤ n₂ := Nat.le_trans few le₂
  refine alike_peek fun next => ?_
  split
  case h_1 kind =>
    refine alike_advance (Token.isEnd_of_kind kind rfl) (fun _ => full) ?_
    exact classDeclaration_alike hr few le₁' le₂'
  case h_2 kind =>
    refine alike_advance (Token.isEnd_of_kind kind rfl) (fun _ => full) ?_
    have taken := function_progress (hr.fewer few) "function" le₁' le₂'
    exact (taken.keep (Nat.le_succ m)).bind fun _ => alike_pure rfl
  case h_3 kind =>
    refine alike_advance (Token.isEnd_of_kind kind rfl) (fun _ => full) ?_
    exact variableDeclaration_alike full hr few
  case h_4 => exact Alike.at (statement_progress full hr le₁ le₂ m lt) next

include full hr le₁ le₂ in
/-- A declaration that begins before the end takes a token: if it stops with an error, it has taken
one on the way to it, or the next one is dropped. -/
theorem declaration_progress : ∀ m < n + 1,
    P.AlikeWhere (fun t => t.rest.length < m + 1 ∧ t.atEnd = false) m (declaration n₁ r)
      (declaration n₂ r') (Option.map P.stmt) := by
  intro m lt s t related ⟨fits, notEnd⟩
  have ends := declarationOrError_progress full hr le₁ le₂ m lt s t related fits
  unfold declaration
  revert ends
  generalize declarationOrError n₁ r s = x
  generalize declarationOrError n₂ r' t = y
  intro ends
  cases ends with
  | ok same related onward fewer => exact .ok (congrArg some same) related onward fewer
  | @error e s' t' related onward =>
    have recorded := onward.trans (.record t' e)
    obtain ⟨related, onward', shorter⟩ := alike_synchronize full (P.record related e)
    refine .ok rfl related (recorded.trans onward') ?_
    cases ended : t'.atEnd with
    | false =>
      have fewer := shorter ended
      have fewer' := recorded.length_le
      omega
    | true =>
      have fewer := recorded.length_lt_of_atEnd notEnd ended
      have fewer' := onward'.length_le
      omega

/-! ## Programs -/

include hr in
theorem programItems_alike (few : m ≤ n) (seen : List (Stmt RefId)) {k₁ k₂ : Nat} (le₁ : m ≤ k₁)
    (le₂ : m ≤ k₂) :
    P.Alike m m (programItems r k₁ (seen.map P.stmt)) (programItems r' k₂ seen)
      (List.map P.stmt) := by
  induction le₁, le₂ using bounds_induction generalizing seen with
  | none => exact alike_zero
  | more m k₁ k₂ le₁ le₂ ih =>
    refine alike_unlessEnded false (alike_pure (by simp)) ?_
    exact items_alike hr few seen fun seen => ih (Nat.le_of_succ_le few) seen

include hr in
theorem wholeExpression_alike (few : m ≤ n) :
    P.Alike m m (wholeExpression r) (wholeExpression r') P.expr :=
  (hr.expression.keep few).bind fun _ => alike_atEnd.bind fun _ =>
    AlikeWhere.ite Iff.rfl (alike_pure rfl) alike_failHere

/-! ## The rules of a parse -/

/-- The rules that start over with `r` behind a token. -/
def nextRules (n : Nat) (r : Rules) : Rules where
  expression := fun s => assignment n r s
  unary := fun s => unary n r s
  statement := fun s => statement n r s
  declaration := fun s => declaration n r s

/-- The rules for up to `n - 1` tokens, above rules for none at all. -/
def rulesAbove (base : Rules) : Nat → Rules
  | 0 => base
  | n + 1 => nextRules n (rulesAbove base n)

/-- A parse has its rules above some for no tokens at all. -/
theorem rules_eq (n : Nat) : rules n = rulesAbove (rules 0) n := by
  induction n with
  | zero => rfl
  | succ n ih =>
    have next : rules (n + 1) = nextRules n (rules n) := rfl
    rw [next, ih, rulesAbove]

section

variable {base base' : Rules}

/-- What expressions are read does not depend on the bounds, nor on the rules for no tokens. -/
theorem rulesAbove_expressions (le₁ : n ≤ n₁) (le₂ : n ≤ n₂) :
    P.ExpressionsAlike n (rulesAbove base n₁) (rulesAbove base' n₂) := by
  induction le₁, le₂ using bounds_induction with
  | none => exact ⟨nofun, nofun⟩
  | more n n₁ n₂ le₁ le₂ inner =>
    exact ⟨assignment_progress inner le₁ le₂, unary_progress inner le₁ le₂⟩

include full in
/-- What is read does not depend on the bounds, nor on the rules for no tokens. -/
theorem rulesAbove_alike (le₁ : n ≤ n₁) (le₂ : n ≤ n₂) :
    P.RulesAlike n (rulesAbove base n₁) (rulesAbove base' n₂) := by
  induction le₁, le₂ using bounds_induction with
  | none n₁ n₂ =>
    exact ⟨rulesAbove_expressions (Nat.zero_le n₁) (Nat.zero_le n₂), nofun, nofun⟩
  | more n n₁ n₂ le₁ le₂ inner =>
    have expressions : P.ExpressionsAlike (n + 1) (rulesAbove base (n₁ + 1))
        (rulesAbove base' (n₂ + 1)) :=
      rulesAbove_expressions (Nat.succ_le_succ le₁) (Nat.succ_le_succ le₂)
    exact ⟨expressions, statement_progress full inner le₁ le₂,
      declaration_progress full inner le₁ le₂⟩

end

end Parser

end Lox
