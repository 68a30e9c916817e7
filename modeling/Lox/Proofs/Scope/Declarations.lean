import Lox.Proofs.Scope.Resolved
import Lox.Proofs.Scope.Regular

/-!
# Names that are declared once

Where nothing is misplaced, no scope has two declarations of one name: a name that a statement or a
parameter declares is declared by no other statement or parameter of the scope.
-/

namespace Lox

/-- The name that the statement binds in the scope that it stands in. -/
def Stmt.declared? {ρ : Type} : Stmt ρ → Option String
  | .declare name _ | .function ⟨name, _, _⟩ | .classDecl name _ _ => some name.text
  | .expression _ | .print _ | .block _ | .conditional .. | .loop .. | .ret .. => none

theorem Stmt.declared?_of_not_isDeclaration {ρ : Type} {s : Stmt ρ}
    (h : s.isDeclaration = false) : s.declared? = none := by
  cases s <;> first | rfl | cases h

theorem Stmt.Shaped.declared?_allowed {allowed : String → Prop} {s : Stmt Place}
    (shaped : s.Shaped allowed) : ∀ name ∈ s.declared?, allowed name := by
  intro name mem
  cases s with
  | declare | classDecl =>
    cases mem
    exact shaped.1
  | function d =>
    obtain ⟨_, _, _⟩ := d
    cases mem
    exact shaped.1
  | expression | print | block | ret | conditional | loop => cases mem

/-! ## Scopes -/

namespace Scopes

variable {scopes : Scopes} {name other : String}

theorem isDeclared_define_self (inside : scopes ≠ []) :
    (scopes.define name).isDeclared name = true := by
  cases scopes with
  | nil => exact absurd rfl inside
  | cons scope rest => simp [define, isDeclared, Bindings.contains_insert]

theorem isDeclared_define (declared : scopes.isDeclared name = true) :
    (scopes.define other).isDeclared name = true := by
  cases scopes with
  | nil => cases declared
  | cons scope rest =>
    have declared : scope.contains name = true := declared
    simp [define, isDeclared, Bindings.contains_insert, declared]

theorem define_ne_nil (inside : scopes ≠ []) : scopes.define name ≠ [] := by
  cases scopes with
  | nil => exact absurd rfl inside
  | cons scope rest => exact List.cons_ne_nil _ _

theorem length_define : (scopes.define name).length = scopes.length := by
  cases scopes with
  | nil => rfl
  | cons scope outer => rfl

/-- A declaration changes the innermost scope only. -/
theorem drop_define {k : Nat} (h : k = 0 → scopes = []) :
    (scopes.define name).drop k = scopes.drop k := by
  cases scopes with
  | nil => rfl
  | cons scope outer =>
    cases k with
    | zero => cases h rfl
    | succ k => rfl

theorem isDeclared_enterFunction (scopes : Scopes) {params : List Name} {x : Name}
    (mem : x ∈ params) :
    (scopes.enterFunction params).isDeclared x.text = true := by
  rw [enterFunction_eq]
  have found : (paramScope params).get? x.text = some true := by
    rw [get?_paramScope]
    exact if_pos (List.mem_map_of_mem mem)
  simp [isDeclared, Bindings.contains, found]

end Scopes

section

variable {ρ : Type} {allowed : String → Prop} {name : String}

theorem Stmt.scopesAfter_isDeclared {s : Stmt ρ} (shaped : s.Shaped allowed) {scopes : Scopes}
    (declared : scopes.isDeclared name = true) :
    (s.scopesAfter scopes).isDeclared name = true := by
  cases s with
  | declare | classDecl => exact Scopes.isDeclared_define declared
  | function d =>
    obtain ⟨_, _, _⟩ := d
    exact Scopes.isDeclared_define declared
  | expression | print | block | ret | conditional | loop =>
    rw [shaped.scopesAfter rfl]
    exact declared

theorem Stmt.scopesAfter_ne_nil {s : Stmt ρ} (shaped : s.Shaped allowed) {scopes : Scopes}
    (inside : scopes ≠ []) : s.scopesAfter scopes ≠ [] := by
  cases s with
  | declare | classDecl => exact Scopes.define_ne_nil inside
  | function d =>
    obtain ⟨_, _, _⟩ := d
    exact Scopes.define_ne_nil inside
  | expression | print | block | ret | conditional | loop =>
    rw [shaped.scopesAfter rfl]
    exact inside

theorem Stmt.scopesAfter_declares {s : Stmt ρ} (declares : s.declared? = some name)
    {scopes : Scopes} (inside : scopes ≠ []) : (s.scopesAfter scopes).isDeclared name = true := by
  cases s with
  | declare | classDecl =>
    cases declares
    exact Scopes.isDeclared_define_self inside
  | function d =>
    obtain ⟨_, _, _⟩ := d
    cases declares
    exact Scopes.isDeclared_define_self inside
  | expression | print | block | ret | conditional | loop => cases declares

theorem Stmt.not_redeclared {s : Stmt ρ} {c : Context} (ok : s.violations c = [])
    (declared : c.scopes.isDeclared name = true) : s.declared? ≠ some name := by
  have other {x : Name} (ok : redeclaration c.scopes x = []) : some x.text ≠ some name := by
    intro same
    cases same
    rw [violationIf_eq_nil.1 ok] at declared
    cases declared
  cases s with
  | declare => exact other (List.append_eq_nil_iff.1 ok).1
  | classDecl =>
    exact other (List.append_eq_nil_iff.1 (List.append_eq_nil_iff.1 ok).1).1
  | function d =>
    obtain ⟨_, _, _⟩ := d
    exact other (List.append_eq_nil_iff.1 (List.append_eq_nil_iff.1 ok).1).1
  | expression | print | block | ret | conditional | loop => exact fun same => by cases same

theorem Stmt.none_redeclared {ss : List (Stmt ρ)} {c : Context} (shaped : Stmt.ShapedAll allowed ss)
    (ok : Stmt.violationsAll c ss = []) (declared : c.scopes.isDeclared name = true) :
    ∀ s ∈ ss, s.declared? ≠ some name := by
  induction ss generalizing c with
  | nil => exact fun s mem => by cases mem
  | cons s ss ih =>
    obtain ⟨okHead, okTail⟩ := List.append_eq_nil_iff.1 ok
    intro t mem
    rcases List.mem_cons.1 mem with rfl | mem
    · exact Stmt.not_redeclared okHead declared
    · exact ih shaped.2 okTail (Stmt.scopesAfter_isDeclared shaped.1 declared) t mem

/-- In a scope of their own, no other statement declares the name that one of them declares. -/
theorem Stmt.declared_once {before after : List (Stmt ρ)} {s : Stmt ρ} {c : Context}
    (inside : c.scopes ≠ []) (shaped : Stmt.ShapedAll allowed (before ++ s :: after))
    (ok : Stmt.violationsAll c (before ++ s :: after) = []) (declares : s.declared? = some name) :
    ∀ t ∈ before ++ after, t.declared? ≠ some name := by
  induction before generalizing c with
  | nil =>
    obtain ⟨-, okAfter⟩ := List.append_eq_nil_iff.1 ok
    exact Stmt.none_redeclared shaped.2 okAfter (Stmt.scopesAfter_declares declares inside)
  | cons first before ih =>
    obtain ⟨-, okTail⟩ := List.append_eq_nil_iff.1 ok
    intro t mem
    rcases List.mem_cons.1 mem with rfl | mem
    · intro again
      have declared := Stmt.scopesAfter_declares again inside
      exact Stmt.none_redeclared shaped.2 okTail declared s (by simp) declares
    · exact ih (Stmt.scopesAfter_ne_nil shaped.1 inside) shaped.2 okTail t mem

theorem params_not_declared {params : List Name} {scopes : Scopes}
    (ok : paramViolations scopes params = []) (declared : scopes.isDeclared name = true) :
    ∀ x ∈ params, x.text ≠ name := by
  induction params generalizing scopes with
  | nil => exact fun x mem => by cases mem
  | cons p params ih =>
    obtain ⟨okHead, okTail⟩ := List.append_eq_nil_iff.1 ok
    intro x mem
    rcases List.mem_cons.1 mem with rfl | mem
    · intro same
      rw [← same, violationIf_eq_nil.1 okHead] at declared
      cases declared
    · exact ih okTail (Scopes.isDeclared_define declared) x mem

/-- No other parameter has the name that one of them has. -/
theorem params_once {before after : List Name} {p : Name} {scopes : Scopes} (inside : scopes ≠ [])
    (ok : paramViolations scopes (before ++ p :: after) = []) :
    ∀ x ∈ before ++ after, x.text ≠ p.text := by
  induction before generalizing scopes with
  | nil =>
    obtain ⟨-, okAfter⟩ := List.append_eq_nil_iff.1 ok
    exact params_not_declared okAfter (Scopes.isDeclared_define_self inside)
  | cons first before ih =>
    obtain ⟨-, okTail⟩ := List.append_eq_nil_iff.1 ok
    intro x mem
    rcases List.mem_cons.1 mem with rfl | mem
    · have declared : (scopes.define x.text).isDeclared x.text = true :=
        Scopes.isDeclared_define_self inside
      exact (params_not_declared okTail declared p (by simp)).symm
    · exact ih (Scopes.define_ne_nil inside) okTail x mem

theorem Stmt.violations_of_mem {before after : List (Stmt ρ)} {s : Stmt ρ} {c : Context}
    (ok : Stmt.violationsAll c (before ++ s :: after) = []) : ∃ inner, s.violations inner = [] := by
  induction before generalizing c with
  | nil => exact ⟨c, (List.append_eq_nil_iff.1 ok).1⟩
  | cons first before ih => exact ih (List.append_eq_nil_iff.1 ok).2

theorem FunctionDecl.violations_of_mem {before after : List (FunctionDecl ρ)} {d : FunctionDecl ρ}
    {c : Context} (ok : FunctionDecl.violationsAll c (before ++ d :: after) = []) :
    d.violations c = [] := by
  induction before with
  | nil => exact (List.append_eq_nil_iff.1 ok).1
  | cons first before ih => exact ih (List.append_eq_nil_iff.1 ok).2

end

end Lox
