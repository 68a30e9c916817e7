import Lox.Proofs.Parser.Acceptance
import Lox.Proofs.Parser.Lines
import Lox.Proofs.Scope.Unmarked
import Lox.Proofs.Token.Scans

/-!
# The programs of source texts

`IsProgram source tree` says that a source text is a program and that this is its tree: the text
is scanned to its end, the grammar derives its tokens, and nothing is misplaced in the tree. A
session accepts exactly the texts that are programs (`checkProgram_of_isProgram`,
`isProgram_of_checkProgram`), and of one that it accepts it runs the tree, with the places that its
references have at the top level.
-/

namespace Lox

open Lexer (Scans newlines)
open Grammar (Declarations Program)

/-- The text is a program with this tree, which has every `else` at the nearest `if`. -/
def IsProgram (source : String) (tree : List (Stmt Unit)) : Prop :=
  ∃ ts line, Scans 1 source.toList ts line [] ∧ Declarations true ts tree ∧
    Stmt.violationsAll .top tree = []

/-- A program is declarations and the end. -/
theorem Grammar.Program.declarations {nearest : Bool} {ts : List Token} {ending : Token}
    {tree : List (Stmt Unit)} (h : Program nearest (ts ++ [ending]) tree) :
    Declarations nearest ts tree := by
  generalize whole : ts ++ [ending] = tokens at h
  cases h with
  | of items kind =>
    obtain ⟨same, -⟩ := List.append_inj' whole rfl
    rw [same]
    exact items

section

variable {source : String} {tree : List (Stmt Unit)} {firstRef : RefId}

/-- What is run of statements that are resolved depends on their tree only. -/
theorem runnable_of_resolve {statements : List (Stmt RefId)}
    {located : List (Stmt (RefId × Place))} (resolved : resolve statements = .ok located) :
    Stmt.violationsAll .top (statements.map Stmt.bare) = [] ∧
      runnable located = Stmt.placedAll [] (statements.map Stmt.bare) := by
  obtain ⟨none, rfl⟩ := resolve_eq_ok.1 resolved
  rw [Stmt.violationsAll_bare, Stmt.placedAll_bare]
  exact ⟨none, rfl⟩

theorem resolve_of_bare {statements : List (Stmt RefId)}
    (none : Stmt.violationsAll .top (statements.map Stmt.bare) = []) :
    ∃ located, resolve statements = .ok located := by
  rw [Stmt.violationsAll_bare] at none
  exact ⟨_, resolve_eq_ok.2 ⟨none, rfl⟩⟩

/-- A text that is accepted is a program, and its tree is what is run. -/
theorem isProgram_of_checkProgram {located : List (Stmt (RefId × Place))}
    (accepted : checkProgram (readProgram source firstRef) = .ok located) :
    ∃ tree, IsProgram source tree ∧ runnable located = Stmt.placedAll [] tree := by
  obtain ⟨noReports, resolved⟩ := checkProgram_eq_ok.1 accepted
  have noErrors : errorsOf (lex source) = [] ∧
      (parseProgram (tokensOf (lex source)) firstRef).errors = [] := by
    simpa [readProgram, readSource] using noReports
  obtain ⟨ts, scans⟩ := scans_of_lex noErrors.1
  have tokens := (lex_of_scans scans).1
  have ends : EndsOnce (tokensOf (lex source)) := ⟨ts, _, tokens, rfl, scans.notEnd⟩
  have derived := program_of_noErrors ends noErrors.2
  obtain ⟨none, runs⟩ := runnable_of_resolve resolved
  have items : Declarations true ts ((readProgram source firstRef).result.map Stmt.bare) := by
    have result : (readProgram source firstRef).result =
      (parseProgram (tokensOf (lex source)) firstRef).result := rfl
    rw [result]
    apply Program.declarations
    rw [← tokens]
    exact derived
  exact ⟨_, ⟨ts, _, scans, items, none⟩, runs⟩

/-- A program is accepted, and its tree is what is run. -/
theorem checkProgram_of_isProgram (h : IsProgram source tree) (firstRef : RefId) :
    ∃ located, checkProgram (readProgram source firstRef) = .ok located ∧
      runnable located = Stmt.placedAll [] tree := by
  obtain ⟨ts, line, scans, items, none⟩ := h
  obtain ⟨tokens, noLexErrors⟩ := lex_of_scans scans
  have derived : Program true (tokensOf (lex source)) tree := by
    rw [tokens]
    exact .of items rfl
  obtain ⟨noErrors, same⟩ := parseProgram_of_program derived firstRef
  have noReports : (readProgram source firstRef).reports = [] := by
    simp [readProgram, readSource, noLexErrors, noErrors]
  have bare : (readProgram source firstRef).result.map Stmt.bare = tree := same
  obtain ⟨located, resolved⟩ := resolve_of_bare (by rw [bare]; exact none)
  obtain ⟨-, runs⟩ := runnable_of_resolve resolved
  refine ⟨located, checkProgram_eq_ok.2 ⟨noReports, resolved⟩, ?_⟩
  rw [runs, bare]

end

end Lox
