import Lox.Proofs.Run.Names
import Lox.Proofs.Scope.Standing
import Lox.Proofs.Session.LocalNames

/-!
# Only declarations bind names

What is evaluated leaves each scope that there was with the names that it had, whatever is called for
it and however it ends. So do assignments, and so does the evaluation of a text in a session. A
statement of a parsed program may add one name to the scope in which it is run, the one that it
declares; no other scope has more names behind it, and none has fewer.

Branches and bodies of loops are no declarations in a parsed program, which is why one name is all
(`Stmt.Shaped.binds_eq`). They are none in any part of it (`Stands.shaped`).
-/

namespace Lox

/-- Each scope of the first machine binds the same names in the second. -/
def Machine.SameNames (m m' : Machine) : Prop :=
  ∀ id < m.store.frames.size, ∀ name,
    (m'.store.frame id).contains name = (m.store.frame id).contains name

/-- The statement is a part of a program that the parser gives, with whatever places its references
have been given. -/
def Stmt.IsParsed (s : Stmt Place) : Prop :=
  ∃ tokens firstRef program,
    program.map Stmt.bare = (parseProgram tokens firstRef).result.map Stmt.bare ∧
      ∃ c, Stands (· = .statements program) c (.statement s)

/-! ## Shapes of parts -/

section

variable {allowed : String → Prop} {c inner : Context}

/-- All names of the part are allowed, and no branch or body of a loop in it is a declaration. -/
def Node.Shaped (allowed : String → Prop) : Node → Prop
  | .expression e => e.Shaped allowed
  | .statement s => s.Shaped allowed
  | .statements ss => Stmt.ShapedAll allowed ss

theorem Expr.Shaped.operand {e operand : Expr Place} (h : e.Shaped allowed)
    (mem : operand ∈ e.operands) : operand.Shaped allowed := by
  cases e with
  | literal | «variable» | this | super => simp [Expr.operands] at mem
  | grouping inner | unary op line inner => exact List.mem_singleton.1 mem ▸ h
  | assign target value => exact List.mem_singleton.1 mem ▸ h.2
  | get object property => exact List.mem_singleton.1 mem ▸ h.1
  | binary op line left right | logical op left right =>
    rcases List.mem_pair.1 mem with rfl | rfl
    · exact h.1
    · exact h.2
  | set object property value =>
    rcases List.mem_pair.1 mem with rfl | rfl
    · exact h.1
    · exact h.2.2
  | call callee line arguments =>
    rcases List.mem_cons.1 mem with rfl | mem
    · exact h.1
    · exact Expr.shapedAll_iff.1 h.2 operand mem

theorem Stmt.Shaped.part {s : Stmt Place} {part : Node} (h : s.Shaped allowed)
    (mem : (inner, part) ∈ s.parts c) : part.Shaped allowed := by
  cases s with
  | expression value | print value | block body =>
    cases List.mem_singleton.1 mem
    exact h
  | declare name initializer =>
    cases initializer with
    | none => simp [Stmt.parts] at mem
    | some e =>
      cases List.mem_singleton.1 mem
      exact h.2
  | conditional condition thenBranch elseBranch =>
    cases elseBranch with
    | none =>
      rcases List.mem_pair.1 mem with same | same <;> cases same
      · exact h.1
      · exact h.2.2
    | some elseBranch =>
      rcases Stmt.mem_parts_conditional.1 mem with same | same | same <;> cases same
      · exact h.1
      · exact h.2.1.2
      · exact h.2.2.2
  | loop condition body =>
    rcases List.mem_pair.1 mem with same | same <;> cases same
    · exact h.1
    · exact h.2.2
  | function declaration =>
    obtain ⟨name, params, body⟩ := declaration
    cases List.mem_singleton.1 mem
    exact h.2.2
  | ret line value =>
    cases value with
    | none => simp [Stmt.parts] at mem
    | some e =>
      cases List.mem_singleton.1 mem
      exact h
  | classDecl name superclass methods =>
    obtain ⟨d, hd, same⟩ := List.mem_map.1 mem
    cases same
    obtain ⟨method, params, body⟩ := d
    exact (FunctionDecl.shapedAll_iff.1 h.2.2 _ hd).2.2

theorem Node.Shaped.part {n part : Node} (h : n.Shaped allowed)
    (mem : (inner, part) ∈ n.parts c) : part.Shaped allowed := by
  cases n with
  | expression e =>
    obtain ⟨operand, isOperand, same⟩ := List.mem_map.1 mem
    cases same
    exact Expr.Shaped.operand h isOperand
  | statement s => exact Stmt.Shaped.part h mem
  | statements ss =>
    cases ss with
    | nil => simp [Node.parts] at mem
    | cons s ss =>
      rcases List.mem_pair.1 mem with same | same <;> cases same
      · exact h.1
      · exact h.2

/-- What stands in shaped code is shaped. -/
theorem Stands.shaped {code : Node → Prop} (rooted : ∀ n, code n → n.Shaped allowed) {n : Node}
    (h : Stands code c n) : n.Shaped allowed := by
  induction h with
  | root isCode => exact rooted _ isCode
  | part _ mem ih => exact ih.part mem

end

/-- A part of a parsed program binds what it declares itself. -/
theorem Stmt.IsParsed.binds_eq {s : Stmt Place} (h : s.IsParsed) :
    s.binds = s.declared?.toList := by
  obtain ⟨tokens, firstRef, program, same, c, stands⟩ := h
  have parsed : Stmt.ShapedAll (fun _ => True) (parseProgram tokens firstRef).result :=
    parseProgram_shaped tokens firstRef fun _ _ _ => trivial
  have shaped : Stmt.ShapedAll (fun _ => True) program := by
    rw [← Stmt.shapedAll_bare, same, Stmt.shapedAll_bare]
    exact parsed
  have part : s.Shaped fun _ => True := by
    apply stands.shaped
    rintro n rfl
    exact shaped
  exact part.binds_eq

/-- All that stands in the program of a text that is accepted is parsed. -/
theorem Stmt.isParsed_of_checkProgram {source : String} {firstRef : RefId}
    {located : List (Stmt (RefId × Place))}
    (accepted : checkProgram (readProgram source firstRef) = .ok located) {c : Context}
    {s : Stmt Place} (stands : Stands (· = .statements (runnable located)) c (.statement s)) :
    s.IsParsed := by
  obtain ⟨spells, -⟩ := spells_of_checkProgram accepted
  have same := (parseProgram_of_program spells.program firstRef).2
  exact ⟨_, firstRef, runnable located, same.symm, c, stands⟩

/-! ## Machines -/

theorem Run.BindsOnly.sameNames {m m' : Machine} (h : Run.BindsOnly [] m m') : m.SameNames m' := by
  intro id lt name
  rw [Bool.eq_iff_iff]
  constructor
  · intro after
    rcases h.adds lt after with before | ⟨-, none⟩
    · exact before
    · exact absurd none List.not_mem_nil
  · exact h.keeps

/-- The evaluation of a text adds no name to any scope. -/
theorem Session.evaluate_sameNames (fuel : Nat) (s : Session) (source : String) :
    s.machine.SameNames (s.evaluate fuel source).2.machine := by
  unfold Session.evaluate
  dsimp only
  cases checkExpression (readExpression source s.nextRef) with
  | error reports => exact fun _ _ _ => rfl
  | ok e =>
    have evaluated := ((evaluator_binds fuel).eval (runnableExpr e) s.machine).sameNames
    simp only [Session.perform]
    cases result : (evaluator fuel).eval (runnableExpr e) s.machine with
    | ok v m =>
      rw [result] at evaluated
      exact evaluated
    | error stop m =>
      rw [result] at evaluated
      exact evaluated

/-- **Only declarations bind names.** Whatever expression is evaluated on whatever machine, and however
that ends, the scopes that there were bind the names that they did; so it is with an assignment to a
variable, and with a text that a session evaluates. Where a statement of a parsed program is run, such
as one of a text that a session accepts, the other scopes bind the names that they did. The active one
has lost none, and what it has more is the name that the statement itself declares. -/
theorem only_declarations_bind :
    (∀ fuel (e : Expr Place) (m : Machine),
      m.SameNames (Run.left ((evaluator fuel).eval e m))) ∧
    (∀ (s : Stmt Place), s.IsParsed → ∀ fuel (m : Machine) (id : FrameId),
      id < m.store.frames.size → ∀ name,
      let before := m.store.frame id
      let behind := (Run.left ((evaluator fuel).exec s m)).store.frame id
      (id ≠ m.current.frame → behind.contains name = before.contains name) ∧
      (before.contains name = true → behind.contains name = true) ∧
      (behind.contains name = true → before.contains name = true ∨ s.declared? = some name)) ∧
    (∀ source firstRef located, checkProgram (readProgram source firstRef) = .ok located →
      ∀ c s, Stands (· = .statements (runnable located)) c (.statement s) → s.IsParsed) ∧
    (∀ place name v (m : Machine),
      m.SameNames (Run.left (Run.assignVariable place name v m))) ∧
    (∀ fuel (s : Session) source, s.machine.SameNames (s.evaluate fuel source).2.machine) := by
  refine ⟨?_, ?_, ?_, ?_, Session.evaluate_sameNames⟩
  · intro fuel e m
    exact ((evaluator_binds fuel).eval e m).sameNames
  · intro s parsed fuel m id lt name
    have bindsOnly := (evaluator_binds fuel).exec s m
    rw [parsed.binds_eq] at bindsOnly
    have adds (after : ((Run.left ((evaluator fuel).exec s m)).store.frame id).contains name = true) :
        (m.store.frame id).contains name = true ∨
          id = m.current.frame ∧ s.declared? = some name := by
      rcases bindsOnly.adds lt after with before | ⟨active, mem⟩
      · exact .inl before
      · exact .inr ⟨active, Option.mem_toList.1 mem⟩
    refine ⟨fun other => ?_, bindsOnly.keeps, fun after => (adds after).imp_right And.right⟩
    rw [Bool.eq_iff_iff]
    constructor
    · intro after
      rcases adds after with before | ⟨active, -⟩
      · exact before
      · exact absurd active other
    · exact bindsOnly.keeps
  · intro source firstRef located accepted c s stands
    exact Stmt.isParsed_of_checkProgram accepted stands
  · intro place name v m
    exact (Run.Binds.assignVariable place name v m).sameNames

end Lox
