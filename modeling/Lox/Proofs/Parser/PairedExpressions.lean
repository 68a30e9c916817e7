import Lox.Proofs.Parser.Pairs
import Lox.Proofs.Parser.Soundness

/-!
# Expressions side by side

The rules for expressions do the same on related states, whatever bounds their loops have, if these
are at least as large as the number of tokens left. None of them takes a semicolon.
-/

namespace Lox

/-- The rules that expressions start over with do the same, where fewer than `n` tokens are left. -/
structure Pairing.ExpressionsAlike (P : Pairing) (n : Nat) (r r' : Rules) : Prop where
  expression : P.Progress n r.expression r'.expression P.expr
  unary : P.Progress n r.unary r'.unary P.expr

namespace Parser

open Pairing

variable {P : Pairing} {n : Nat}

/-! ## Operators -/

section

variable {p q : Parser (Expr RefId)}

theorem chain_alike (hp : P.Progress n p q P.expr) {operator : Kind → Option BinaryOp}
    (ends : operator .endOfInput = none) (stops : operator (.symbol .semicolon) = none) {m : Nat}
    (few : m ≤ n) (left : Expr RefId) {k₁ k₂ : Nat} (le₁ : m ≤ k₁) (le₂ : m ≤ k₂) :
    P.Alike m m (chain operator p k₁ (P.expr left)) (chain operator q k₂ left) P.expr := by
  induction le₁, le₂ using bounds_induction generalizing left with
  | none => exact alike_zero
  | more m k₁ k₂ le₁ le₂ ih =>
    have few' : m ≤ n := Nat.le_of_succ_le few
    refine alike_peek fun next => ?_
    cases is : operator next.kind with
    | none => exact Alike.at (alike_pure rfl) next
    | some op =>
      have noSemicolon : next.kind = .symbol .semicolon → P.semicolons := by
        intro kind
        rw [kind, stops] at is
        cases is
      refine alike_advance (notEnd_of_operator ends is) noSemicolon ?_
      refine ((hp.keep few').bind fun right => ?_).le (Nat.le_succ m)
      exact ih few' (.binary op next.line left right)

theorem logicalChain_alike (hp : P.Progress n p q P.expr) {keyword : Keyword} {op : LogicalOp}
    {m : Nat} (few : m ≤ n) (left : Expr RefId) {k₁ k₂ : Nat} (le₁ : m ≤ k₁) (le₂ : m ≤ k₂) :
    P.Alike m m (logicalChain keyword op p k₁ (P.expr left))
      (logicalChain keyword op q k₂ left) P.expr := by
  induction le₁, le₂ using bounds_induction generalizing left with
  | none => exact alike_zero
  | more m k₁ k₂ le₁ le₂ ih =>
    have few' : m ≤ n := Nat.le_of_succ_le few
    refine alike_acceptOr nofun ?_ (alike_pure rfl)
    refine ((hp.keep few').bind fun right => ?_).le (Nat.le_succ m)
    exact ih few' (.logical op left right)

/-- A level is an operand of the next one and the operands joined to it. -/
theorem level_alike {f g : Expr RefId → Parser (Expr RefId)} (hp : P.Progress (n + 1) p q P.expr)
    (hf : ∀ m ≤ n, ∀ left, P.Alike m m (f (P.expr left)) (g left) P.expr) :
    P.Progress (n + 1) (p >>= f) (q >>= g) P.expr :=
  fun m lt => (hp m lt).bind (hf m (Nat.le_of_lt_succ lt))

end

/-! ## Operands -/

section

variable {r r' : Rules} (hr : P.ExpressionsAlike n r r')
include hr

theorem arguments_alike {m : Nat} (few : m ≤ n) (seen : List (Expr RefId)) {k₁ k₂ : Nat}
    (le₁ : m ≤ k₁) (le₂ : m ≤ k₂) :
    P.Alike m m (arguments r k₁ (seen.map P.expr)) (arguments r' k₂ seen) (List.map P.expr) := by
  induction le₁, le₂ using bounds_induction generalizing seen with
  | none => exact alike_zero
  | more m k₁ k₂ le₁ le₂ ih =>
    refine alike_afterReport (by rw [List.length_map]) ?_
    refine (hr.expression.keep few).bind fun argument => alike_acceptOr nofun ?_ ?_
    · exact (ih (Nat.le_of_succ_le few) (argument :: seen)).le (Nat.le_succ m)
    · exact alike_pure (by simp)

theorem callOf_alike {m : Nat} (few : m ≤ n) (callee : Expr RefId) {k₁ k₂ : Nat} (le₁ : m ≤ k₁)
    (le₂ : m ≤ k₂) :
    P.Alike m m (callOf k₁ r (P.expr callee)) (callOf k₂ r' callee) P.expr := by
  refine (alike_check _).bind fun _ => ?_
  refine AlikeWhere.choose (alike_pure rfl) (arguments_alike hr few [] le₁ le₂) fun values => ?_
  refine (alike_expectSymbol _ (by decide)).bind fun closing => alike_pure ?_
  simp [Pairing.expr, Expr.mapMarks, Expr.mapMarksAll_eq_map]

theorem suffixes_alike {m : Nat} (few : m ≤ n) (object : Expr RefId) {k₁ k₂ : Nat} (le₁ : m ≤ k₁)
    (le₂ : m ≤ k₂) :
    P.Alike m m (suffixes r k₁ (P.expr object)) (suffixes r' k₂ object) P.expr := by
  induction le₁, le₂ using bounds_induction generalizing object with
  | none => exact alike_zero
  | more m k₁ k₂ le₁ le₂ ih =>
    have few' : m ≤ n := Nat.le_of_succ_le few
    refine alike_acceptOr nofun ?_ (alike_acceptOr nofun ?_ (alike_pure rfl))
    · refine (callOf_alike hr few' object le₁ le₂).bind fun call => ?_
      exact (ih few' call).le (Nat.le_succ m)
    · refine (alike_expectName _).bind fun property => ?_
      exact (ih few' (.get object property)).le (Nat.le_succ m)

omit hr in
theorem superMethod_alike (m line : Nat) :
    P.Alike m m (superMethod line) (superMethod line) P.expr :=
  (alike_expectSymbol _ (by decide)).bind fun _ => (alike_expectName _).bind fun _ =>
    alike_freshRef.bind fun _ => alike_pure rfl

theorem grouping_alike {m : Nat} (few : m ≤ n) : P.Alike m m (grouping r) (grouping r') P.expr :=
  (hr.expression.keep few).bind fun _ => (alike_expectSymbol _ (by decide)).bind fun _ =>
    alike_pure rfl

theorem primary_progress : P.Progress (n + 1) (primary r) (primary r') P.expr := by
  intro m lt
  have few : m ≤ n := Nat.le_of_lt_succ lt
  refine alike_peek fun next => ?_
  have one {literal : Literal} (notEnd : next.isEnd = false)
      (other : next.kind ≠ .symbol .semicolon) :
      P.AlikeAt (m + 1) next m (advance >>= fun _ => pure (.literal literal))
        (advance >>= fun _ => pure (.literal literal)) P.expr :=
    alike_advance notEnd (fun is => absurd is other) (alike_pure rfl)
  split
  case h_1 kind => exact one (Token.isEnd_of_kind kind rfl) (by rw [kind]; nofun)
  case h_2 kind => exact one (Token.isEnd_of_kind kind rfl) (by rw [kind]; nofun)
  case h_3 kind => exact one (Token.isEnd_of_kind kind rfl) (by rw [kind]; nofun)
  case h_4 kind => exact one (Token.isEnd_of_kind kind rfl) (by rw [kind]; nofun)
  case h_5 kind => exact one (Token.isEnd_of_kind kind rfl) (by rw [kind]; nofun)
  case h_6 kind =>
    refine alike_advance (Token.isEnd_of_kind kind rfl) (by rw [kind]; nofun) ?_
    exact alike_freshRef.bind fun _ => alike_pure rfl
  case h_7 kind =>
    refine alike_advance (Token.isEnd_of_kind kind rfl) (by rw [kind]; nofun) ?_
    exact superMethod_alike m next.line
  case h_8 kind =>
    refine alike_advance (Token.isEnd_of_kind kind rfl) (by rw [kind]; nofun) ?_
    exact (alike_reference _).bind fun _ => alike_pure rfl
  case h_9 kind =>
    refine alike_advance (Token.isEnd_of_kind kind rfl) (by rw [kind]; nofun) ?_
    exact grouping_alike hr few
  case h_10 => exact alike_failHere

/-! ## Levels -/

variable {n₁ n₂ : Nat} (le₁ : n ≤ n₁) (le₂ : n ≤ n₂)
include le₁ le₂

theorem call_progress : P.Progress (n + 1) (call n₁ r) (call n₂ r') P.expr :=
  level_alike (primary_progress hr) fun _ few object =>
    suffixes_alike hr few object (Nat.le_trans few le₁) (Nat.le_trans few le₂)

theorem unary_progress : P.Progress (n + 1) (unary n₁ r) (unary n₂ r') P.expr := by
  intro m lt
  refine alike_peek fun next => ?_
  cases operator : unaryOp? next.kind with
  | none => exact Alike.at (call_progress hr le₁ le₂ m lt) next
  | some op =>
    have kind : next.kind = .symbol .bang ∨ next.kind = .symbol .minus :=
      (unaryOp?_eq_some operator).imp And.left And.left
    have notEnd : next.isEnd = false :=
      kind.elim (Token.isEnd_of_kind · rfl) (Token.isEnd_of_kind · rfl)
    have other : next.kind ≠ .symbol .semicolon := by
      rcases kind with kind | kind <;> rw [kind] <;> nofun
    refine alike_advance notEnd (fun is => absurd is other) ?_
    exact (hr.unary.keep (Nat.le_of_lt_succ lt)).bind fun _ => alike_pure rfl

omit hr in
/-- Operands joined by the binary operators of a level. -/
theorem chainLevel_progress {operator : Kind → Option BinaryOp} (ends : operator .endOfInput = none)
    (stops : operator (.symbol .semicolon) = none) {p q : Parser (Expr RefId)}
    (hp : P.Progress (n + 1) p q P.expr) :
    P.Progress (n + 1) (p >>= chain operator p n₁) (q >>= chain operator q n₂) P.expr :=
  level_alike hp fun _ few left =>
    chain_alike (hp.fewer (Nat.le_succ n)) ends stops few left (Nat.le_trans few le₁)
      (Nat.le_trans few le₂)

omit hr in
/-- Operands joined by the logical operator of a level. -/
theorem logicalLevel_progress {keyword : Keyword} {op : LogicalOp} {p q : Parser (Expr RefId)}
    (hp : P.Progress (n + 1) p q P.expr) :
    P.Progress (n + 1) (p >>= logicalChain keyword op p n₁) (q >>= logicalChain keyword op q n₂)
      P.expr :=
  level_alike hp fun _ few left =>
    logicalChain_alike (hp.fewer (Nat.le_succ n)) few left (Nat.le_trans few le₁)
      (Nat.le_trans few le₂)

theorem factor_progress : P.Progress (n + 1) (factor n₁ r) (factor n₂ r') P.expr :=
  chainLevel_progress le₁ le₂ rfl rfl (unary_progress hr le₁ le₂)

theorem term_progress : P.Progress (n + 1) (term n₁ r) (term n₂ r') P.expr :=
  chainLevel_progress le₁ le₂ rfl rfl (factor_progress hr le₁ le₂)

theorem comparison_progress : P.Progress (n + 1) (comparison n₁ r) (comparison n₂ r') P.expr :=
  chainLevel_progress le₁ le₂ rfl rfl (term_progress hr le₁ le₂)

theorem equality_progress : P.Progress (n + 1) (equality n₁ r) (equality n₂ r') P.expr :=
  chainLevel_progress le₁ le₂ rfl rfl (comparison_progress hr le₁ le₂)

theorem conjunction_progress : P.Progress (n + 1) (conjunction n₁ r) (conjunction n₂ r') P.expr :=
  logicalLevel_progress le₁ le₂ (equality_progress hr le₁ le₂)

theorem disjunction_progress : P.Progress (n + 1) (disjunction n₁ r) (disjunction n₂ r') P.expr :=
  logicalLevel_progress le₁ le₂ (conjunction_progress hr le₁ le₂)

omit hr le₁ le₂ in
theorem assignTo_alike {m : Nat} (target value : Expr RefId) (equals : Token) :
    P.Alike m m (assignTo (P.expr target) equals (P.expr value)) (assignTo target equals value)
      P.expr := by
  cases target with
  | «variable» name => exact alike_pure rfl
  | get object property => exact alike_pure rfl
  | literal | grouping | unary | binary | logical | assign | call | set | this | super =>
    exact (alike_report _ _).bind fun _ => alike_pure rfl

theorem assignment_progress : P.Progress (n + 1) (assignment n₁ r) (assignment n₂ r') P.expr := by
  intro m lt
  refine (disjunction_progress hr le₁ le₂ m lt).bind fun target => ?_
  have few : m ≤ n := Nat.le_of_lt_succ lt
  cases m with
  | zero => exact alike_zero
  | succ m =>
    refine alike_acceptPrevious nofun (fun equals => ?_) (alike_pure rfl)
    refine ((hr.expression.keep (Nat.le_of_succ_le few)).bind fun value => ?_).le (Nat.le_succ m)
    exact assignTo_alike target value equals

end

end Parser

end Lox
