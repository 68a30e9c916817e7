import Lox.Proofs.Scope.Declarations
import Lox.Proofs.Scope.Standing

/-!
# Parameters of functions in programs

What stands in a program without violations has none, so no two parameters of a function or method
in it have one name.
-/

namespace Lox

/-- The violations in a part of a program. -/
def Node.violations (c : Context) : Node → List Violation
  | .expression e => e.violations c
  | .statement s => s.violations c
  | .statements ss => Stmt.violationsAll c ss

variable {c inner : Context}

theorem Expr.violations_of_mem {e : Expr Place} {es : List (Expr Place)} (mem : e ∈ es)
    (ok : Expr.violationsAll c es = []) : e.violations c = [] := by
  induction es with
  | nil => cases mem
  | cons first rest ih =>
    obtain ⟨okFirst, okRest⟩ := List.append_eq_nil_iff.1 ok
    rcases List.mem_cons.1 mem with rfl | mem
    · exact okFirst
    · exact ih mem okRest

theorem Expr.violations_operand {e operand : Expr Place} (ok : e.violations c = [])
    (mem : operand ∈ e.operands) : operand.violations c = [] := by
  cases e with
  | literal | «variable» | this | super => cases mem
  | grouping inner => exact List.mem_singleton.1 mem ▸ ok
  | unary op line inner => exact List.mem_singleton.1 mem ▸ ok
  | assign target value => exact List.mem_singleton.1 mem ▸ ok
  | get object property => exact List.mem_singleton.1 mem ▸ ok
  | binary op line left right | logical op left right =>
    obtain ⟨okLeft, okRight⟩ := List.append_eq_nil_iff.1 ok
    rcases List.mem_pair.1 mem with rfl | rfl
    · exact okLeft
    · exact okRight
  | set object property value =>
    obtain ⟨okValue, okObject⟩ := List.append_eq_nil_iff.1 ok
    rcases List.mem_pair.1 mem with rfl | rfl
    · exact okObject
    · exact okValue
  | call callee line arguments =>
    obtain ⟨okCallee, okArguments⟩ := List.append_eq_nil_iff.1 ok
    rcases List.mem_cons.1 mem with rfl | mem
    · exact okCallee
    · exact Expr.violations_of_mem mem okArguments

theorem FunctionDecl.violations_of_mem_all {d : FunctionDecl Place}
    {ds : List (FunctionDecl Place)} (mem : d ∈ ds) (ok : FunctionDecl.violationsAll c ds = []) :
    d.violations c = [] := by
  obtain ⟨before, after, rfl⟩ := List.append_of_mem mem
  exact FunctionDecl.violations_of_mem ok

theorem Stmt.violations_part {s : Stmt Place} {part : Node} (ok : s.violations c = [])
    (mem : (inner, part) ∈ s.parts c) : part.violations inner = [] := by
  cases s with
  | expression value | print value =>
    cases List.mem_singleton.1 mem
    exact ok
  | block body =>
    cases List.mem_singleton.1 mem
    exact ok
  | declare name value | ret line value =>
    cases value with
    | none => cases mem
    | some e =>
      cases List.mem_singleton.1 mem
      exact (List.append_eq_nil_iff.1 ok).2
  | conditional condition thenBranch elseBranch =>
    cases elseBranch with
    | none =>
      obtain ⟨okCondition, okThen⟩ := List.append_eq_nil_iff.1 ok
      rcases List.mem_pair.1 mem with same | same <;> cases same
      · exact okCondition
      · exact okThen
    | some other =>
      obtain ⟨okFirst, okElse⟩ := List.append_eq_nil_iff.1 ok
      obtain ⟨okCondition, okThen⟩ := List.append_eq_nil_iff.1 okFirst
      rcases List.mem_cons.1 mem with same | mem
      · cases same
        exact okCondition
      rcases List.mem_pair.1 mem with same | same <;> cases same
      · exact okThen
      · exact okElse
  | loop condition body =>
    obtain ⟨okCondition, okBody⟩ := List.append_eq_nil_iff.1 ok
    rcases List.mem_pair.1 mem with same | same <;> cases same
    · exact okCondition
    · exact okBody
  | function d =>
    obtain ⟨name, params, body⟩ := d
    cases List.mem_singleton.1 mem
    exact (List.append_eq_nil_iff.1 ok).2
  | classDecl name superclass methods =>
    obtain ⟨d, isMethod, same⟩ := List.mem_map.1 mem
    cases same
    have okMethod := FunctionDecl.violations_of_mem_all isMethod (List.append_eq_nil_iff.1 ok).2
    obtain ⟨method, params, body⟩ := d
    exact (List.append_eq_nil_iff.1 okMethod).2

/-- What stands in a part without violations has none. -/
theorem Node.violations_part {n part : Node} (ok : n.violations c = [])
    (mem : (inner, part) ∈ n.parts c) : part.violations inner = [] := by
  cases n with
  | expression e =>
    obtain ⟨operand, isOperand, same⟩ := List.mem_map.1 mem
    cases same
    exact Expr.violations_operand ok isOperand
  | statement s => exact Stmt.violations_part ok mem
  | statements ss =>
    cases ss with
    | nil => cases mem
    | cons s ss =>
      obtain ⟨okFirst, okRest⟩ := List.append_eq_nil_iff.1 ok
      rcases List.mem_pair.1 mem with same | same <;> cases same
      · exact okFirst
      · exact okRest

theorem Stands.violations {code : Node → Prop} (accepted : ∀ n, code n → n.violations .top = [])
    {n : Node} (h : Stands code c n) : n.violations c = [] := by
  induction h with
  | root isCode => exact accepted _ isCode
  | part _ mem ih => exact Node.violations_part ih mem

/-! ## Parameters -/

/-- No two of the parameters have one name. -/
def DistinctNames (params : List Name) : Prop := params.Pairwise fun x y => y.text ≠ x.text

theorem distinctNames_of_ok {params : List Name} {scopes : Scopes} (inside : scopes ≠ [])
    (ok : paramViolations scopes params = []) : DistinctNames params := by
  induction params generalizing scopes with
  | nil => exact List.Pairwise.nil
  | cons p params ih =>
    have okRest := (List.append_eq_nil_iff.1 ok).2
    have others := params_not_declared okRest (Scopes.isDeclared_define_self inside)
    exact List.pairwise_cons.2 ⟨others, ih (Scopes.define_ne_nil inside) okRest⟩

theorem Stmt.distinctNames_function {d : FunctionDecl Place}
    (ok : (Stmt.function d).violations c = []) : DistinctNames d.params := by
  obtain ⟨name, params, body⟩ := d
  obtain ⟨okHead, -⟩ := List.append_eq_nil_iff.1 ok
  exact distinctNames_of_ok (List.cons_ne_nil _ _) (List.append_eq_nil_iff.1 okHead).2

theorem Stmt.distinctNames_method {name : Name} {superclass : Option (Reference Place)}
    {methods : List (FunctionDecl Place)} {d : FunctionDecl Place}
    (ok : (Stmt.classDecl name superclass methods).violations c = []) (mem : d ∈ methods) :
    DistinctNames d.params := by
  have okMethod := FunctionDecl.violations_of_mem_all mem (List.append_eq_nil_iff.1 ok).2
  obtain ⟨method, params, body⟩ := d
  exact distinctNames_of_ok (List.cons_ne_nil _ _) (List.append_eq_nil_iff.1 okMethod).1

end Lox
