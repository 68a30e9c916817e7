import Lox.Session

/-!
# What is accepted

Resolution accepts what has no violations. A text is accepted that has been read without reports and
that resolution accepts.
-/

namespace Lox

section

variable {α ε ε' : Type} {x : Except ε α} {f : ε → ε'}

theorem mapError_eq_ok {a : α} : x.mapError f = .ok a ↔ x = .ok a := by
  cases x with
  | ok b => exact ⟨fun h => congrArg _ (Except.ok.inj h), fun h => congrArg _ (Except.ok.inj h)⟩
  | error e =>
    constructor
    · intro h
      cases h
    · intro h
      cases h

theorem mapError_eq_error {e' : ε'} : x.mapError f = .error e' ↔ ∃ e, x = .error e ∧ e' = f e := by
  cases x with
  | ok a =>
    constructor
    · intro h
      cases h
    · rintro ⟨e, h, -⟩
      cases h
  | error e =>
    constructor
    · intro h
      cases h
      exact ⟨e, rfl, rfl⟩
    · rintro ⟨e', h, rfl⟩
      cases h
      rfl

end

section

variable {ρ : Type} {program : List (Stmt ρ)}

theorem resolve_eq_ok {located : List (Stmt (ρ × Place))} :
    resolve program = .ok located ↔
      Stmt.violationsAll .top program = [] ∧ located = Stmt.locateAll [] program := by
  unfold resolve
  cases Stmt.violationsAll .top program with
  | nil => simp [eq_comm]
  | cons v vs => simp

theorem resolve_eq_error {violations : List Violation} :
    resolve program = .error violations ↔
      Stmt.violationsAll .top program = violations ∧ violations ≠ [] := by
  unfold resolve
  cases Stmt.violationsAll .top program with
  | nil => simp [eq_comm]
  | cons v vs =>
    constructor
    · intro failed
      cases failed
      exact ⟨rfl, List.cons_ne_nil v vs⟩
    · rintro ⟨rfl, -⟩
      rfl

theorem resolveExpression_eq_ok {e : Expr ρ} {located : Expr (ρ × Place)} :
    resolveExpression e = .ok located ↔ e.violations .top = [] ∧ located = e.locate [] := by
  unfold resolveExpression
  cases e.violations .top with
  | nil => simp [eq_comm]
  | cons v vs => simp

end

variable {reports : List Diagnostic}

section

variable {r : SourceReading (List (Stmt RefId))}

theorem checkProgram_of_clean (clean : r.reports = []) :
    checkProgram r = (resolve r.result).mapError (·.map Violation.diagnostic) := by
  rw [checkProgram, clean]
  rfl

/-- What is wrong with a text as it is read is all that is reported when it is checked. -/
theorem checkProgram_of_reports (some : r.reports ≠ []) : checkProgram r = .error r.reports := by
  rw [checkProgram, if_neg]
  simpa using some

theorem checkProgram_eq_ok {located : List (Stmt (RefId × Place))} :
    checkProgram r = .ok located ↔ r.reports = [] ∧ resolve r.result = .ok located := by
  by_cases clean : r.reports = []
  · rw [checkProgram_of_clean clean, mapError_eq_ok]
    simp [clean]
  · rw [checkProgram_of_reports clean]
    simp [clean]

theorem checkProgram_eq_error :
    checkProgram r = .error reports ↔
      r.reports = reports ∧ reports ≠ [] ∨
        r.reports = [] ∧ ∃ violations, resolve r.result = .error violations ∧
          reports = violations.map Violation.diagnostic := by
  by_cases clean : r.reports = []
  · rw [checkProgram_of_clean clean, mapError_eq_error]
    simp [clean, eq_comm]
  · rw [checkProgram_of_reports clean]
    constructor
    · intro failed
      cases failed
      exact .inl ⟨rfl, clean⟩
    · rintro (⟨rfl, -⟩ | ⟨none, -⟩)
      · rfl
      · exact absurd none clean

end

section

variable {r : SourceReading (Option (Expr RefId))}

theorem checkExpression_of_reports (some : r.reports ≠ []) :
    checkExpression r = .error r.reports := by
  unfold checkExpression
  split
  · next none _ => exact absurd none some
  · rfl

theorem checkExpression_eq_ok {located : Expr (RefId × Place)} :
    checkExpression r = .ok located ↔
      r.reports = [] ∧ ∃ e, r.result = some e ∧ resolveExpression e = .ok located := by
  unfold checkExpression
  split
  · next e clean result =>
    simp [mapError_eq_ok, clean, result]
  · next other =>
    simp only [reduceCtorEq, false_iff]
    rintro ⟨clean, e, result, -⟩
    exact other e clean result

end

end Lox
