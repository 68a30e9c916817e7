import Lox.Proofs.Scope.Regular
import Mathlib.Data.List.Basic

/-!
# Where the parts of a program stand

Resolution walks through a program and has a context around each part that it reaches. `Node.parts`
is one step of that walk, and `Stands` is the walk. What stands in well-scoped code is well-scoped.
-/

namespace Lox

/-- A part of a program. -/
inductive Node where
  | expression (e : Expr Place)
  | statement (s : Stmt Place)
  | statements (ss : List (Stmt Place))

/-- The expressions directly inside an expression. -/
def Expr.operands {ρ : Type} : Expr ρ → List (Expr ρ)
  | .literal _ | .variable _ | .this .. | .super .. => []
  | .grouping inner => [inner]
  | .unary _ _ operand => [operand]
  | .binary _ _ left right => [left, right]
  | .logical _ left right => [left, right]
  | .assign _ value => [value]
  | .call callee _ arguments => callee :: arguments
  | .get object _ => [object]
  | .set object _ value => [object, value]

/-- The parts directly inside a statement, each with the context that resolution has around it. -/
def Stmt.parts (c : Context) : Stmt Place → List (Context × Node)
  | .expression value => [(c, .expression value)]
  | .print value => [(c, .expression value)]
  | .declare name initializer =>
    initializer.toList.map fun e => (c.within (c.scopes.declare name.text), .expression e)
  | .block body => [(c.within c.scopes.enter, .statements body)]
  | .conditional condition thenBranch elseBranch =>
    (c, .expression condition) :: (c, .statement thenBranch) ::
      elseBranch.toList.map fun s => (c.within (thenBranch.scopesAfter c.scopes), .statement s)
  | .loop condition body => [(c, .expression condition), (c, .statement body)]
  | .function ⟨name, params, body⟩ =>
    [((c.within (c.scopes.define name.text)).inFunction params, .statements body)]
  | .ret _ value => value.toList.map fun e => (c, .expression e)
  | .classDecl name superclass methods =>
    let inner := (c.within (c.scopes.define name.text)).inClass superclass
    methods.map fun d => (inner.inMethod d.name d.params, .statements d.body)

namespace Node

/-- The parts directly inside a part, each with the context that resolution has around it. -/
def parts (c : Context) : Node → List (Context × Node)
  | .expression e => e.operands.map fun operand => (c, .expression operand)
  | .statement s => s.parts c
  | .statements [] => []
  | .statements (s :: ss) =>
    [(c, .statement s), (c.within (s.scopesAfter c.scopes), .statements ss)]

/-- The part may stand where the context says. -/
def Scoped (c : Context) : Node → Prop
  | .expression e => e.Scoped c
  | .statement s => s.Scoped c
  | .statements ss => Stmt.ScopedAll c ss

/-- The context is such as a part of this sort can have around it. -/
def Suits (c : Context) : Node → Prop
  | .expression _ => c.Regular
  | .statement _ | .statements _ => c.Settled

end Node

/-- Resolution reaches the part with this context when it walks through the code. -/
inductive Stands (code : Node → Prop) : Context → Node → Prop
  | root {n : Node} : code n → Stands code .top n
  | part {c inner : Context} {n part : Node} :
    Stands code c n → (inner, part) ∈ n.parts c → Stands code inner part

/-- What stands in some code stands in more. -/
theorem Stands.mono {code code' : Node → Prop} {c : Context} {n : Node} (h : Stands code c n)
    (more : ∀ n, code n → code' n) : Stands code' c n := by
  induction h with
  | root isCode => exact .root (more _ isCode)
  | part _ mem ih => exact .part ih mem

variable {c inner : Context}

theorem Expr.ScopedAll.of_mem :
    ∀ {es : List (Expr Place)}, Expr.ScopedAll c es → ∀ e ∈ es, e.Scoped c
  | _ :: _, h, _, .head _ => h.1
  | _ :: _, h, _, .tail _ mem => Expr.ScopedAll.of_mem h.2 _ mem

theorem Expr.Scoped.operand {e operand : Expr Place} (h : e.Scoped c)
    (mem : operand ∈ e.operands) : operand.Scoped c := by
  cases e with
  | literal | «variable» | this | super => simp [Expr.operands] at mem
  | grouping inner => exact List.mem_singleton.1 mem ▸ h
  | unary op line inner => exact List.mem_singleton.1 mem ▸ h
  | assign target value => exact List.mem_singleton.1 mem ▸ h.2.2
  | get object property => exact List.mem_singleton.1 mem ▸ h
  | binary op line left right | logical op left right | set object property right =>
    rcases List.mem_pair.1 mem with rfl | rfl
    · exact h.1
    · exact h.2
  | call callee line arguments =>
    rcases List.mem_cons.1 mem with rfl | mem
    · exact h.1
    · exact Expr.ScopedAll.of_mem h.2 operand mem

/-- The parts of a conditional with two branches. -/
theorem Stmt.mem_parts_conditional {condition : Expr Place} {thenBranch elseBranch : Stmt Place}
    {part : Node} :
    (inner, part) ∈ (Stmt.conditional condition thenBranch (some elseBranch)).parts c ↔
      (inner, part) = (c, .expression condition) ∨ (inner, part) = (c, .statement thenBranch) ∨
        (inner, part) =
          (c.within (thenBranch.scopesAfter c.scopes), .statement elseBranch) := by
  simp [Stmt.parts]

theorem Stmt.Scoped.part {s : Stmt Place} {part : Node} (h : s.Scoped c) (settled : c.Settled)
    (mem : (inner, part) ∈ s.parts c) : part.Scoped inner ∧ part.Suits inner := by
  cases s with
  | expression value | print value =>
    cases List.mem_singleton.1 mem
    exact ⟨h, settled.regular⟩
  | declare name initializer =>
    cases initializer with
    | none => simp [Stmt.parts] at mem
    | some e =>
      cases List.mem_singleton.1 mem
      exact ⟨h.2, settled.declare h.1⟩
  | block body =>
    cases List.mem_singleton.1 mem
    exact ⟨h, settled.enter⟩
  | conditional condition thenBranch elseBranch =>
    cases elseBranch with
    | none =>
      rcases List.mem_pair.1 mem with same | same <;> cases same
      · exact ⟨h.1, settled.regular⟩
      · exact ⟨h.2.2, settled⟩
    | some elseBranch =>
      -- a branch declares nothing, so the second one stands where the first one does
      have after : thenBranch.scopesAfter c.scopes = c.scopes := h.2.1.2.scopesAfter h.2.1.1
      rw [Stmt.mem_parts_conditional, after, Context.within_self] at mem
      rcases mem with same | same | same <;> cases same
      · exact ⟨h.1, settled.regular⟩
      · exact ⟨h.2.1.2, settled⟩
      · exact ⟨h.2.2.2, settled⟩
  | loop condition body =>
    rcases List.mem_pair.1 mem with same | same <;> cases same
    · exact ⟨h.1, settled.regular⟩
    · exact ⟨h.2.2, settled⟩
  | function declaration =>
    obtain ⟨name, params, body⟩ := declaration
    cases List.mem_singleton.1 mem
    exact ⟨h.2.2, (settled.define h.1).enterFunction h.2.1 rfl rfl⟩
  | ret line value =>
    cases value with
    | none => simp [Stmt.parts] at mem
    | some e =>
      cases List.mem_singleton.1 mem
      exact ⟨h.2.2, settled.regular⟩
  | classDecl name superclass methods =>
    obtain ⟨d, hd, same⟩ := List.mem_map.1 mem
    cases same
    obtain ⟨method, params, body⟩ := d
    obtain ⟨named, standing⟩ := FunctionDecl.scopedAll_iff.1 h.2.2 _ hd
    exact ⟨standing, ((settled.define h.1).inClass superclass).enterFunction named rfl rfl⟩

/-- What stands in a part that may stand somewhere may stand where it does. -/
theorem Node.Scoped.part {n part : Node} (h : n.Scoped c) (suits : n.Suits c)
    (mem : (inner, part) ∈ n.parts c) : part.Scoped inner ∧ part.Suits inner := by
  cases n with
  | expression e =>
    obtain ⟨operand, isOperand, same⟩ := List.mem_map.1 mem
    cases same
    exact ⟨Expr.Scoped.operand h isOperand, suits⟩
  | statement s => exact Stmt.Scoped.part h suits mem
  | statements ss =>
    cases ss with
    | nil => simp [Node.parts] at mem
    | cons s ss =>
      rcases List.mem_pair.1 mem with same | same <;> cases same
      · exact ⟨h.1, suits⟩
      · exact ⟨h.2, Context.Settled.after suits h.1⟩

/-- **What stands in well-scoped code is well-scoped**, and its context is regular. -/
theorem Stands.scoped {code : Node → Prop} (rooted : ∀ n, code n → n.Scoped .top) {n : Node}
    (h : Stands code c n) : n.Scoped c ∧ n.Suits c := by
  induction h with
  | @root n isCode =>
    refine ⟨rooted n isCode, ?_⟩
    cases n with
    | expression e => exact Context.settled_top.regular
    | statement s | statements ss => exact Context.settled_top
  | part _ mem ih => exact ih.1.part ih.2 mem

end Lox
