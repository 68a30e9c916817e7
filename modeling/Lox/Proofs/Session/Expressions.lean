import Lox.Proofs.Parser.SingleExpression
import Lox.Proofs.Session.Programs

/-!
# The expressions of source texts

`IsExpression source tree` says that a source text is an expression and that this is its tree. A
session evaluates exactly the texts that are expressions, and of one that it evaluates it evaluates the
tree, with the places that its references have at the top level.
-/

namespace Lox

open Lexer (Scans)
open Grammar (Expression)

/-- The text is an expression with this tree. -/
def IsExpression (source : String) (tree : Expr Unit) : Prop :=
  ∃ ts line, Scans 1 source.toList ts line [] ∧ Expression ts tree ∧ tree.violations .top = []

section

variable {source : String} {tree : Expr Unit} {firstRef : RefId}

/-- What is evaluated of an expression that is resolved depends on its tree only. -/
theorem runnableExpr_of_resolve {e : Expr RefId} {located : Expr (RefId × Place)}
    (resolved : resolveExpression e = .ok located) :
    e.bare.violations .top = [] ∧ runnableExpr located = e.bare.placed [] := by
  obtain ⟨none, rfl⟩ := resolveExpression_eq_ok.1 resolved
  rw [Expr.bare, Expr.violations_mapMarks, Expr.placed_mapMarks]
  exact ⟨none, rfl⟩

theorem resolveExpression_of_bare {e : Expr RefId} (none : e.bare.violations .top = []) :
    ∃ located, resolveExpression e = .ok located := by
  rw [Expr.bare, Expr.violations_mapMarks] at none
  exact ⟨_, resolveExpression_eq_ok.2 ⟨none, rfl⟩⟩

/-- A text that is evaluated is an expression, and its tree is what is evaluated. -/
theorem isExpression_of_checkExpression {located : Expr (RefId × Place)}
    (accepted : checkExpression (readExpression source firstRef) = .ok located) :
    ∃ tree, IsExpression source tree ∧ runnableExpr located = tree.placed [] := by
  obtain ⟨noReports, e, given, resolved⟩ := checkExpression_eq_ok.1 accepted
  have noErrors : errorsOf (lex source) = [] ∧
      (parseExpression (tokensOf (lex source)) firstRef).errors = [] := by
    simpa [readExpression, readSource] using noReports
  obtain ⟨ts, scans⟩ := scans_of_lex noErrors.1
  have tokens := (lex_of_scans scans).1
  have ends : EndsOnce (tokensOf (lex source)) := ⟨ts, _, tokens, rfl, scans.notEnd⟩
  obtain ⟨ts', ending, split, -, derived⟩ := isSingle_of_noErrors ends noErrors.2 given
  obtain ⟨rfl, -⟩ := List.append_inj' (tokens.symm.trans split) rfl
  obtain ⟨none, evaluates⟩ := runnableExpr_of_resolve resolved
  exact ⟨e.bare, ⟨ts, _, scans, derived, none⟩, evaluates⟩

/-- An expression is evaluated, and its tree is what is evaluated. -/
theorem checkExpression_of_isExpression (h : IsExpression source tree) (firstRef : RefId) :
    ∃ located, checkExpression (readExpression source firstRef) = .ok located ∧
      runnableExpr located = tree.placed [] := by
  obtain ⟨ts, line, scans, derived, none⟩ := h
  obtain ⟨tokens, noLexErrors⟩ := lex_of_scans scans
  have single : IsSingle (tokensOf (lex source)) tree := ⟨ts, _, tokens, rfl, derived⟩
  obtain ⟨noErrors, e, given, rfl⟩ := parseExpression_of_isSingle single firstRef
  have noReports : (readExpression source firstRef).reports = [] := by
    simp [readExpression, readSource, noLexErrors, noErrors]
  have result : (readExpression source firstRef).result = some e := given
  obtain ⟨located, resolved⟩ := resolveExpression_of_bare none
  obtain ⟨-, evaluates⟩ := runnableExpr_of_resolve resolved
  exact ⟨located, checkExpression_eq_ok.2 ⟨noReports, e, result, resolved⟩, evaluates⟩

/-- Which numbers the references get has no part in what is run of a program. -/
theorem checkProgram_renumbered {located : List (Stmt (RefId × Place))}
    (accepted : checkProgram (readProgram source firstRef) = .ok located) (other : RefId) :
    ∃ located', checkProgram (readProgram source other) = .ok located' ∧
      runnable located' = runnable located := by
  obtain ⟨tree, isProgram, runs⟩ := isProgram_of_checkProgram accepted
  obtain ⟨located', accepted', runs'⟩ := checkProgram_of_isProgram isProgram other
  exact ⟨located', accepted', runs'.trans runs.symm⟩

/-- Which numbers the references get has no part in what is evaluated of an expression. -/
theorem checkExpression_renumbered {located : Expr (RefId × Place)}
    (accepted : checkExpression (readExpression source firstRef) = .ok located) (other : RefId) :
    ∃ located', checkExpression (readExpression source other) = .ok located' ∧
      runnableExpr located' = runnableExpr located := by
  obtain ⟨tree, isExpression, evaluates⟩ := isExpression_of_checkExpression accepted
  obtain ⟨located', accepted', evaluates'⟩ := checkExpression_of_isExpression isExpression other
  exact ⟨located', accepted', evaluates'.trans evaluates.symm⟩

end

end Lox
