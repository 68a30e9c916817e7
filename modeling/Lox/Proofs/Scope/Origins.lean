import Lox.Proofs.Scope.Standing
import Lox.Proofs.Syntax.Origins

/-!
# What resolution finds in trees made of tokens

What is wrong in a tree made of tokens is on the line of one of them (`Stmt.From.violation`). Each
part of such a tree that resolution reaches is made of the tokens too (`Stands.isFrom`).
-/

namespace Lox

variable {ok : Token → Prop}

/-! ## Violations -/

section

variable {ρ : Type} {v : Violation}

theorem line_of_mem_violationIf {condition : Bool} {cause : ScopeCause} {line : Nat}
    (h : LineFrom ok line) (mem : v ∈ violationIf condition cause line) : LineFrom ok v.line := by
  unfold violationIf at mem
  split at mem
  · cases List.mem_singleton.1 mem
    exact h
  · cases mem

theorem Name.From.redeclaration {name : Name} {scopes : Scopes} (h : name.From ok)
    (mem : v ∈ redeclaration scopes name) : LineFrom ok v.line :=
  line_of_mem_violationIf h.line mem

theorem line_of_mem_paramViolations {params : List Name} {scopes : Scopes}
    (h : ∀ p ∈ params, p.From ok) (mem : v ∈ paramViolations scopes params) :
    LineFrom ok v.line := by
  induction params generalizing scopes with
  | nil => cases mem
  | cons p ps ih =>
    obtain ⟨first, rest⟩ := List.forall_mem_cons.1 h
    rcases List.mem_append.1 mem with mem | mem
    · exact first.redeclaration mem
    · exact ih rest mem

mutual

/-- What is wrong in an expression made of tokens is on the line of one of them. -/
theorem Expr.From.violation {c : Context} :
    ∀ {e : Expr ρ}, e.From ok → v ∈ e.violations c → LineFrom ok v.line
  | .literal _, _, mem => nomatch mem
  | .grouping inner, h, mem => Expr.From.violation (e := inner) h mem
  | .unary _ _ _, ⟨_, operand⟩, mem => operand.violation mem
  | .binary _ _ _ _, ⟨_, left, right⟩, mem =>
    (List.mem_append.1 mem).elim left.violation right.violation
  | .logical _ _ _, ⟨left, right⟩, mem =>
    (List.mem_append.1 mem).elim left.violation right.violation
  | .variable _, h, mem => line_of_mem_violationIf (Name.From.line h) mem
  | .assign _ _, ⟨_, value⟩, mem => value.violation mem
  | .call _ _ _, ⟨callee, _, arguments⟩, mem =>
    (List.mem_append.1 mem).elim callee.violation (Expr.FromAll.violation arguments)
  | .get _ _, ⟨object, _⟩, mem => object.violation mem
  | .set _ _ _, ⟨object, _, value⟩, mem =>
    (List.mem_append.1 mem).elim value.violation object.violation
  | .this _ _, h, mem => line_of_mem_violationIf h mem
  | .super _ _ _, ⟨line, _⟩, mem => by
    unfold Expr.violations at mem
    split at mem
    · cases List.mem_singleton.1 mem
      exact line
    · cases List.mem_singleton.1 mem
      exact line
    · cases mem

theorem Expr.FromAll.violation {c : Context} :
    ∀ {es : List (Expr ρ)}, Expr.FromAll ok es → v ∈ Expr.violationsAll c es → LineFrom ok v.line
  | [], _, mem => nomatch mem
  | _ :: _, ⟨first, rest⟩, mem =>
    (List.mem_append.1 mem).elim first.violation (Expr.FromAll.violation rest)

end

theorem Expr.From?.violation {c : Context} {e? : Option (Expr ρ)} (h : Expr.From? ok e?)
    (mem : v ∈ Expr.violations? c e?) : LineFrom ok v.line := by
  cases e? with
  | none => cases mem
  | some e => exact Expr.From.violation h mem

theorem line_of_mem_selfInheritance {name : Name} {superclass : Option (Reference ρ)}
    (h : ∀ r ∈ superclass, r.name.From ok) (mem : v ∈ selfInheritance name superclass) :
    LineFrom ok v.line := by
  cases superclass with
  | none => cases mem
  | some r => exact line_of_mem_violationIf (h r rfl).line mem

mutual

/-- **What is wrong in a statement made of tokens is on the line of one of them.** -/
theorem Stmt.From.violation :
    ∀ {s : Stmt ρ} {c : Context}, s.From ok → v ∈ s.violations c → LineFrom ok v.line
  | .expression _, _, h, mem | .print _, _, h, mem => Expr.From.violation h mem
  | .declare _ _, _, ⟨named, initializer⟩, mem =>
    (List.mem_append.1 mem).elim named.redeclaration initializer.violation
  | .block _, _, h, mem => Stmt.FromAll.violation h mem
  | .conditional _ _ none, _, ⟨condition, _, thenBranch⟩, mem =>
    (List.mem_append.1 mem).elim condition.violation thenBranch.violation
  | .conditional _ _ (some _), _, ⟨condition, ⟨_, thenBranch⟩, _, elseBranch⟩, mem =>
    (List.mem_append.1 mem).elim
      (fun mem => (List.mem_append.1 mem).elim condition.violation thenBranch.violation)
      elseBranch.violation
  | .loop _ _, _, ⟨condition, _, body⟩, mem =>
    (List.mem_append.1 mem).elim condition.violation body.violation
  | .function ⟨_, _, _⟩, _, ⟨named, params, body⟩, mem =>
    (List.mem_append.1 mem).elim
      (fun mem => (List.mem_append.1 mem).elim named.redeclaration
        (line_of_mem_paramViolations params))
      (Stmt.FromAll.violation body)
  | .ret _ _, _, ⟨line, value⟩, mem =>
    (List.mem_append.1 mem).elim
      (fun mem => (List.mem_append.1 mem).elim (line_of_mem_violationIf line)
        (line_of_mem_violationIf line))
      value.violation
  | .classDecl _ _ _, _, ⟨named, parent, methods⟩, mem =>
    (List.mem_append.1 mem).elim
      (fun mem => (List.mem_append.1 mem).elim named.redeclaration
        (line_of_mem_selfInheritance parent))
      (FunctionDecl.FromAll.violation methods)

theorem Stmt.FromAll.violation :
    ∀ {ss : List (Stmt ρ)} {c : Context}, Stmt.FromAll ok ss → v ∈ Stmt.violationsAll c ss →
      LineFrom ok v.line
  | [], _, _, mem => nomatch mem
  | _ :: _, _, ⟨first, rest⟩, mem =>
    (List.mem_append.1 mem).elim first.violation (Stmt.FromAll.violation rest)

theorem FunctionDecl.FromAll.violation :
    ∀ {ds : List (FunctionDecl ρ)} {c : Context}, FunctionDecl.FromAll ok ds →
      v ∈ FunctionDecl.violationsAll c ds → LineFrom ok v.line
  | [], _, _, mem => nomatch mem
  | ⟨_, _, _⟩ :: _, _, ⟨⟨_, params, body⟩, rest⟩, mem =>
    (List.mem_append.1 mem).elim
      (fun mem => (List.mem_append.1 mem).elim (line_of_mem_paramViolations params)
        (Stmt.FromAll.violation body))
      (FunctionDecl.FromAll.violation rest)

end

end

/-! ## Parts -/

variable (ok) in
/-- Lines and names of the part of a program are those of tokens. -/
def Node.From : Node → Prop
  | .expression e => e.From ok
  | .statement s => s.From ok
  | .statements ss => Stmt.FromAll ok ss

variable {c inner : Context}

theorem Expr.From.operand {e operand : Expr Place} (h : e.From ok) (mem : operand ∈ e.operands) :
    operand.From ok := by
  cases e with
  | literal | «variable» | this | super => simp [Expr.operands] at mem
  | grouping inner => exact List.mem_singleton.1 mem ▸ h
  | unary op line inner | assign target value => exact List.mem_singleton.1 mem ▸ h.2
  | get object property => exact List.mem_singleton.1 mem ▸ h.1
  | binary op line left right =>
    rcases List.mem_pair.1 mem with rfl | rfl
    · exact h.2.1
    · exact h.2.2
  | logical op left right =>
    rcases List.mem_pair.1 mem with rfl | rfl
    · exact h.1
    · exact h.2
  | set object property value =>
    rcases List.mem_pair.1 mem with rfl | rfl
    · exact h.1
    · exact h.2.2
  | call callee line arguments =>
    rcases List.mem_cons.1 mem with rfl | mem
    · exact h.1
    · exact Expr.fromAll_iff.1 h.2.2 operand mem

theorem Stmt.From.part {s : Stmt Place} {part : Node} (h : s.From ok)
    (mem : (inner, part) ∈ s.parts c) : part.From ok := by
  cases s with
  | expression value | print value =>
    cases List.mem_singleton.1 mem
    exact h
  | declare name initializer =>
    cases initializer with
    | none => simp [Stmt.parts] at mem
    | some e =>
      cases List.mem_singleton.1 mem
      exact h.2
  | block body =>
    cases List.mem_singleton.1 mem
    exact h
  | conditional condition thenBranch elseBranch =>
    cases elseBranch with
    | none =>
      rcases List.mem_pair.1 mem with same | same <;> cases same
      · exact h.1
      · exact h.2.2
    | some elseBranch =>
      rcases Stmt.mem_parts_conditional.1 mem with same | same | same <;> cases same
      · exact h.1
      · exact h.2.1.2
      · exact h.2.2.2
  | loop condition body =>
    rcases List.mem_pair.1 mem with same | same <;> cases same
    · exact h.1
    · exact h.2.2
  | function declaration =>
    obtain ⟨name, params, body⟩ := declaration
    cases List.mem_singleton.1 mem
    exact h.2.2
  | ret line value =>
    cases value with
    | none => simp [Stmt.parts] at mem
    | some e =>
      cases List.mem_singleton.1 mem
      exact h.2
  | classDecl name superclass methods =>
    obtain ⟨⟨method, params, body⟩, isMethod, same⟩ := List.mem_map.1 mem
    cases same
    exact (FunctionDecl.fromAll_iff.1 h.2.2 _ isMethod).2.2

theorem Node.From.part {n part : Node} (h : n.From ok) (mem : (inner, part) ∈ n.parts c) :
    part.From ok := by
  cases n with
  | expression e =>
    obtain ⟨operand, isOperand, same⟩ := List.mem_map.1 mem
    cases same
    exact Expr.From.operand h isOperand
  | statement s => exact Stmt.From.part h mem
  | statements ss =>
    cases ss with
    | nil => simp [Node.parts] at mem
    | cons s ss =>
      rcases List.mem_pair.1 mem with same | same <;> cases same
      · exact h.1
      · exact h.2

/-- **What stands in code made of tokens is made of them.** -/
theorem Stands.isFrom {code : Node → Prop} (rooted : ∀ n, code n → n.From ok) {n : Node}
    (h : Stands code c n) : n.From ok := by
  induction h with
  | root isCode => exact rooted _ isCode
  | part _ mem ih => exact ih.part mem

end Lox
