import Lox.Proofs.Parser.ForStatements
import Lox.Proofs.Run.ActiveScope
import Lox.Proofs.Run.Fuel
import Lox.Proofs.Run.Names
import Lox.Proofs.Scope.Unmarked

/-!
# How `for` statements run

The rules by which a `for` statement goes, in terms of how its clauses and its body go: the first
clause once, the test before each round, the last clause behind each body that has come to its normal
end. A statement that is the tree of these parts goes by these rules and by no others.
-/

namespace Lox

/-- The machine with a new scope active, inside the one that was. -/
def Machine.opened (m : Machine) : Machine :=
  { m with
    store := m.store.pushFrame Bindings.empty
    current := ⟨m.store.frames.size, m.current.path⟩ }

namespace ForParts

/-- How a part of a run may end. -/
abbrev Ending (α : Type) := EStateM.Result Stop Machine α

variable (f : ForParts Place)

/-- How one round goes behind its test. With a last clause, there is a scope for the round. -/
inductive Round : Machine → Ending Completion → Prop
  | bodyOnly {m : Machine} {r : Ending Completion} :
    f.increment = none → f.body.Executes m r → Round m r
  | stops {m m' : Machine} {e : Expr Place} {stop : Stop} :
    f.increment = some e → f.body.Executes m.opened (.error stop m') →
    Round m (.error stop (m'.inScope m.current))
  | returns {m m' : Machine} {e : Expr Place} {v : Value} :
    f.increment = some e → f.body.Executes m.opened (.ok (.returned v) m') →
    Round m (.ok (.returned v) (m'.inScope m.current))
  | incrementStops {m m₁ m' : Machine} {e : Expr Place} {stop : Stop} :
    f.increment = some e → f.body.Executes m.opened (.ok .normal m₁) →
    e.Evaluates m₁ (.error stop m') → Round m (.error stop (m'.inScope m.current))
  | ends {m m₁ m' : Machine} {e : Expr Place} {v : Value} :
    f.increment = some e → f.body.Executes m.opened (.ok .normal m₁) →
    e.Evaluates m₁ (.ok v m') → Round m (.ok .normal (m'.inScope m.current))
  | unfinished {m : Machine} : Round m (.error .outOfFuel m)

/-- How the rounds go, one after the other, from before the test of the next one. -/
inductive Rounds : Machine → Ending Completion → Prop
  | testStops {m m' : Machine} {stop : Stop} :
    f.test.Evaluates m (.error stop m') → Rounds m (.error stop m')
  | done {m m' : Machine} {v : Value} :
    f.test.Evaluates m (.ok v m') → v.isTruthy = false → Rounds m (.ok .normal m')
  | stops {m m₁ m' : Machine} {v : Value} {stop : Stop} :
    f.test.Evaluates m (.ok v m₁) → v.isTruthy = true → f.Round m₁ (.error stop m') →
    Rounds m (.error stop m')
  | returns {m m₁ m' : Machine} {v v' : Value} :
    f.test.Evaluates m (.ok v m₁) → v.isTruthy = true → f.Round m₁ (.ok (.returned v') m') →
    Rounds m (.ok (.returned v') m')
  | again {m m₁ m₂ : Machine} {v : Value} {r : Ending Completion} :
    f.test.Evaluates m (.ok v m₁) → v.isTruthy = true → f.Round m₁ (.ok .normal m₂) →
    Rounds m₂ r → Rounds m r
  | unfinished {m : Machine} : Rounds m (.error .outOfFuel m)

/-- How the whole statement goes. With a first clause, there is a scope for the statement. -/
inductive Runs : Machine → Ending Completion → Prop
  | bare {m : Machine} {r : Ending Completion} : f.first = none → f.Rounds m r → Runs m r
  | firstStops {m m' : Machine} {first : FirstClause Place} {stop : Stop} :
    f.first = some first → first.statement.Executes m.opened (.error stop m') →
    Runs m (.error stop (m'.inScope m.current))
  | first {m m₁ : Machine} {first : FirstClause Place} {r : Ending Completion} :
    f.first = some first → first.statement.Executes m.opened (.ok .normal m₁) → f.Rounds m₁ r →
    Runs m (Run.changed (Machine.inScope m.current) r)
  | unfinished {m : Machine} : Runs m (.error .outOfFuel m)

end ForParts

/-! ## Blocks of two statements -/

namespace Run

theorem ended_of_changed {α : Type} {f : Machine → Machine} {r : EStateM.Result Stop Machine α}
    (h : Ended (changed f r)) : Ended r := by
  intro m same
  subst same
  exact h (f m) rfl

theorem withEnvironment_eq {α : Type} (e : Environment) (act : Run α) (m : Machine) :
    withEnvironment e act m = changed (Machine.inScope m.current) (act (m.inScope e)) := by
  unfold withEnvironment Machine.inScope
  dsimp only
  cases act { m with current := e } with
  | ok a m' => rfl
  | error stop m' => rfl

theorem exec_block (n : Nat) (body : List (Stmt Place)) (m : Machine) :
    (evaluator (n + 1)).exec (.block body) m =
      changed (Machine.inScope m.current) (execAll (evaluator n) body m.opened) :=
  withEnvironment_eq _ _ { m with store := m.store.pushFrame Bindings.empty }

theorem execAll_single (ev : Evaluator) (s : Stmt Place) : execAll ev [s] = ev.exec s := by
  funext m
  simp only [execAll, Bind.bind, EStateM.bind]
  cases ev.exec s m with
  | error stop m' => rfl
  | ok completion m' => cases completion <;> rfl

theorem execAll_cons (ev : Evaluator) (s : Stmt Place) (ss : List (Stmt Place)) (m : Machine) :
    execAll ev (s :: ss) m = match ev.exec s m with
      | .ok .normal m' => execAll ev ss m'
      | .ok (.returned v) m' => .ok (.returned v) m'
      | .error stop m' => .error stop m' := by
  rw [execAll]
  simp only [Bind.bind, EStateM.bind]
  cases ev.exec s m with
  | error stop m' => rfl
  | ok completion m' => cases completion <;> rfl

theorem exec_expression (n : Nat) (e : Expr Place) (m : Machine) :
    (evaluator (n + 1)).exec (.expression e) m = match (evaluator n).eval e m with
      | .error stop m' => .error stop m'
      | .ok _ m' => .ok .normal m' := by
  show ((evaluator n).eval e >>= fun _ => pure Completion.normal) m = _
  simp only [Bind.bind, EStateM.bind]
  cases (evaluator n).eval e m <;> rfl

theorem loop_succ (ev : Evaluator) (k : Nat) (condition : Expr Place) (body : Stmt Place)
    (m : Machine) : loop ev (k + 1) condition body m = match ev.eval condition m with
      | .error stop m' => .error stop m'
      | .ok v m₁ =>
        if v.isTruthy = true then
          match ev.exec body m₁ with
          | .error stop m' => .error stop m'
          | .ok (.returned v') m' => .ok (.returned v') m'
          | .ok .normal m₂ => loop ev k condition body m₂
        else .ok .normal m₁ := by
  rw [loop]
  simp only [Bind.bind, EStateM.bind]
  cases ev.eval condition m with
  | error stop m' => rfl
  | ok v m₁ =>
    dsimp only
    cases v.isTruthy with
    | false => rfl
    | true =>
      simp only [if_true, EStateM.bind]
      cases ev.exec body m₁ with
      | error stop m' => rfl
      | ok completion m₂ => cases completion <;> rfl

/-- Declarations and expressions never end in a return. -/
theorem exec_first (n : Nat) (first : FirstClause Place) (m m' : Machine) (v : Value) :
    (evaluator n).exec first.statement m ≠ .ok (.returned v) m' := by
  obtain _ | n := n
  · exact nofun
  · cases first with
    | expression value =>
      rw [FirstClause.statement, exec_expression]
      cases (evaluator n).eval value m <;> exact nofun
    | declaration name initializer =>
      show (eval? (evaluator n) initializer >>= fun value =>
        define name.text value >>= fun _ => pure Completion.normal) m ≠ _
      simp only [Bind.bind, EStateM.bind]
      cases eval? (evaluator n) initializer m <;> exact nofun

end Run

/-! ## Every run goes by the rules -/

namespace ForParts

variable {f : ForParts Place}

theorem Round.of_exec {n : Nat} {m : Machine} {r : Ending Completion}
    (ran : (evaluator n).exec f.round m = r) : f.Round m r := by
  cases present : f.increment with
  | none =>
    rw [round, present] at ran
    exact .bodyOnly present ⟨n, ran⟩
  | some e =>
    rw [round, present] at ran
    obtain _ | n := n
    · cases ran
      exact .unfinished
    · subst ran
      rw [Run.exec_block, Run.execAll_cons, Run.execAll_single]
      cases body : (evaluator n).exec f.body m.opened with
      | error stop m' => exact .stops present ⟨n, body⟩
      | ok completion m₁ =>
        cases completion with
        | returned v => exact .returns present ⟨n, body⟩
        | normal =>
          obtain _ | n := n
          · cases body
          · dsimp only
            rw [Run.exec_expression]
            cases step : (evaluator n).eval e m₁ with
            | error stop m' => exact .incrementStops present ⟨n + 1, body⟩ ⟨n, step⟩
            | ok v m' => exact .ends present ⟨n + 1, body⟩ ⟨n, step⟩

/-- By induction on how many rounds the loop may still have. -/
theorem Rounds.of_loop {n k : Nat} {m : Machine} {r : Ending Completion}
    (ran : Run.loop (evaluator n) k f.test f.round m = r) : f.Rounds m r := by
  induction k generalizing m r with
  | zero =>
    cases ran
    exact .unfinished
  | succ k ih =>
    subst ran
    rw [Run.loop_succ]
    cases test : (evaluator n).eval f.test m with
    | error stop m' => exact .testStops ⟨n, test⟩
    | ok v m₁ =>
      dsimp only
      split
      case isFalse no => exact .done ⟨n, test⟩ (Bool.eq_false_iff.2 no)
      case isTrue yes =>
        cases round : (evaluator n).exec f.round m₁ with
        | error stop m' => exact .stops ⟨n, test⟩ yes (.of_exec round)
        | ok completion m₂ =>
          cases completion with
          | returned v' => exact .returns ⟨n, test⟩ yes (.of_exec round)
          | normal => exact .again ⟨n, test⟩ yes (.of_exec round) (ih rfl)

theorem Rounds.of_exec {n : Nat} {m : Machine} {r : Ending Completion}
    (ran : (evaluator n).exec (.loop f.test f.round) m = r) : f.Rounds m r := by
  obtain _ | n := n
  · cases ran
    exact .unfinished
  · exact .of_loop ran

theorem Runs.of_exec {n : Nat} {m : Machine} {r : Ending Completion}
    (ran : (evaluator n).exec f.tree m = r) : f.Runs m r := by
  cases present : f.first with
  | none =>
    rw [tree, present] at ran
    exact .bare present (.of_exec ran)
  | some first =>
    rw [tree, present] at ran
    obtain _ | n := n
    · cases ran
      exact .unfinished
    · subst ran
      rw [Run.exec_block, Run.execAll_cons, Run.execAll_single]
      cases clause : (evaluator n).exec first.statement m.opened with
      | error stop m' => exact .firstStops present ⟨n, clause⟩
      | ok completion m₁ =>
        cases completion with
        | returned v => exact absurd clause (Run.exec_first n first _ _ v)
        | normal => exact .first present ⟨n, clause⟩ (.of_exec rfl)

end ForParts

/-! ## What goes by the rules is a run -/

namespace Stmt.Executes

variable {m m₁ : Machine}

theorem expression {e : Expr Place} {v : Value} (h : e.Evaluates m (.ok v m₁)) :
    (Stmt.expression e).Executes m (.ok .normal m₁) := by
  obtain ⟨n, ran⟩ := h
  exact ⟨n + 1, by rw [Run.exec_expression, ran]⟩

theorem expression_stops {e : Expr Place} {stop : Stop} (h : e.Evaluates m (.error stop m₁)) :
    (Stmt.expression e).Executes m (.error stop m₁) := by
  obtain ⟨n, ran⟩ := h
  exact ⟨n + 1, by rw [Run.exec_expression, ran]⟩

theorem pair {s t : Stmt Place} {r : ForParts.Ending Completion}
    (first : s.Executes m.opened (.ok .normal m₁)) (second : t.Executes m₁ r)
    (ended : Run.Ended r) :
    (Stmt.block [s, t]).Executes m (Run.changed (Machine.inScope m.current) r) := by
  obtain ⟨n, first⟩ := first.with (.ok _ _)
  obtain ⟨n', second⟩ := second.with ended
  refine ⟨max n n' + 1, ?_⟩
  rw [Run.exec_block, Run.execAll_cons, first _ (Nat.le_max_left n n'), Run.execAll_single]
  exact congrArg _ (second _ (Nat.le_max_right n n'))

theorem pair_returns {s t : Stmt Place} {v : Value}
    (first : s.Executes m.opened (.ok (.returned v) m₁)) :
    (Stmt.block [s, t]).Executes m (.ok (.returned v) (m₁.inScope m.current)) := by
  obtain ⟨n, ran⟩ := first
  exact ⟨n + 1, by rw [Run.exec_block, Run.execAll_cons, ran]; rfl⟩

theorem pair_stops {s t : Stmt Place} {stop : Stop}
    (first : s.Executes m.opened (.error stop m₁)) :
    (Stmt.block [s, t]).Executes m (.error stop (m₁.inScope m.current)) := by
  obtain ⟨n, ran⟩ := first
  exact ⟨n + 1, by rw [Run.exec_block, Run.execAll_cons, ran]; rfl⟩

/-- The rounds of a loop need not be bounded by the same fuel as what they evaluate. -/
theorem loop {condition : Expr Place} {body : Stmt Place} {n k : Nat}
    {r : ForParts.Ending Completion} (ran : Run.loop (evaluator n) k condition body m = r)
    (ended : Run.Ended r) : (Stmt.loop condition body).Executes m r := by
  subst ran
  exact ⟨max n k + 1, Run.Lasts.loop (evaluator_lasts (Nat.le_max_left n k)) (Nat.le_max_right n k)
    condition body m ended⟩

/-- A round and the rest of a loop. -/
theorem loop_again {condition : Expr Place} {body : Stmt Place} {m₂ : Machine} {v : Value}
    {r : ForParts.Ending Completion} (test : condition.Evaluates m (.ok v m₁))
    (yes : v.isTruthy = true) (round : body.Executes m₁ (.ok .normal m₂))
    (rest : (Stmt.loop condition body).Executes m₂ r) (ended : Run.Ended r) :
    (Stmt.loop condition body).Executes m r := by
  obtain ⟨n₁, test⟩ := test.with (.ok _ _)
  obtain ⟨n₂, round⟩ := round.with (.ok _ _)
  obtain ⟨n₃, rest⟩ := rest.with ended
  let n := max n₁ (max n₂ n₃)
  have last : Run.loop (evaluator n) n condition body m₂ = r := rest (n + 1) (by omega)
  refine loop (k := n + 1) (n := n) ?_ ended
  rw [Run.loop_succ, test n (by omega)]
  simp only [yes, if_true, round n (by omega), last]

/-- The last round of a loop, which stops or returns. -/
theorem loop_last {condition : Expr Place} {body : Stmt Place} {v : Value}
    {r : ForParts.Ending Completion} (test : condition.Evaluates m (.ok v m₁))
    (yes : v.isTruthy = true) (round : body.Executes m₁ r) (ended : Run.Ended r)
    (last : ∀ m₂, r ≠ .ok .normal m₂) : (Stmt.loop condition body).Executes m r := by
  obtain ⟨n₁, test⟩ := test.with (.ok _ _)
  obtain ⟨n₂, round⟩ := round.with ended
  let n := max n₁ n₂
  refine loop (k := 1) (n := n) ?_ ended
  rw [Run.loop_succ, test n (by omega)]
  simp only [yes, if_true, round n (by omega)]
  cases r with
  | error stop m' => rfl
  | ok completion m' =>
    cases completion with
    | returned v => rfl
    | normal => exact absurd rfl (last m')

end Stmt.Executes

namespace ForParts

variable {f : ForParts Place} {m : Machine} {r : Ending Completion}

theorem Round.executes (h : f.Round m r) (ended : Run.Ended r) : f.round.Executes m r := by
  unfold round
  cases h with
  | bodyOnly none ran =>
    rw [none]
    exact ran
  | stops some ran =>
    rw [some]
    exact ran.pair_stops
  | returns some ran =>
    rw [some]
    exact ran.pair_returns
  | incrementStops some ran step =>
    rw [some]
    exact ran.pair (.expression_stops step) (ended.error _)
  | ends some ran step =>
    rw [some]
    exact ran.pair (.expression step) (.ok _ _)
  | unfinished => exact absurd rfl (ended m)

/-- By induction on the rounds. -/
theorem Rounds.executes (h : f.Rounds m r) (ended : Run.Ended r) :
    (Stmt.loop f.test f.round).Executes m r := by
  induction h with
  | testStops test =>
    obtain ⟨n, test⟩ := test
    exact .loop (k := 1) (n := n) (by rw [Run.loop_succ, test]) ended
  | done test no =>
    obtain ⟨n, test⟩ := test
    refine .loop (k := 1) (n := n) ?_ ended
    rw [Run.loop_succ, test]
    simp only [no, Bool.false_eq_true, if_false]
  | stops test yes round => exact .loop_last test yes (round.executes ended) ended nofun
  | returns test yes round => exact .loop_last test yes (round.executes ended) ended nofun
  | again test yes round _ ih => exact .loop_again test yes (round.executes (.ok _ _)) (ih ended) ended
  | unfinished => exact absurd rfl (ended _)

theorem Runs.executes (h : f.Runs m r) (ended : Run.Ended r) : f.tree.Executes m r := by
  unfold tree
  cases h with
  | bare none rounds =>
    rw [none]
    exact rounds.executes ended
  | firstStops some ran =>
    rw [some]
    exact ran.pair_stops
  | first some ran rounds =>
    rw [some]
    have ended := Run.ended_of_changed ended
    exact ran.pair (rounds.executes ended) ended
  | unfinished => exact absurd rfl (ended m)

end ForParts

/-! ## Marked trees -/

section

variable {ρ : Type}

/-- The clause without its marks. -/
def FirstClause.bare : FirstClause ρ → FirstClause Unit
  | declaration name initializer => .declaration name (initializer.map Expr.bare)
  | expression value => .expression value.bare

/-- The parts without their marks. -/
def ForParts.bare (g : ForParts ρ) : ForParts Unit :=
  ⟨g.first.map FirstClause.bare, g.condition.map Expr.bare, g.increment.map Expr.bare, g.body.bare⟩

theorem Stmt.eq_pair {s : Stmt ρ} {first second : Stmt Unit}
    (same : s.bare = .block [first, second]) :
    ∃ s₁ s₂, s = .block [s₁, s₂] ∧ s₁.bare = first ∧ s₂.bare = second := by
  cases s with
  | block ss =>
    rw [bare_block] at same
    have parts := Stmt.block.inj same
    match ss, parts with
    | [s₁, s₂], parts =>
      cases parts
      exact ⟨s₁, s₂, rfl, rfl, rfl⟩
  | conditional c t e => cases e <;> cases same
  | _ => cases same

theorem Stmt.eq_loop {s : Stmt ρ} {condition : Expr Unit} {body : Stmt Unit}
    (same : s.bare = .loop condition body) :
    ∃ c b, s = .loop c b ∧ c.bare = condition ∧ b.bare = body := by
  cases s with
  | loop c b =>
    obtain ⟨condition, body⟩ := Stmt.loop.inj same
    exact ⟨c, b, rfl, condition, body⟩
  | conditional c t e => cases e <;> cases same
  | _ => cases same

theorem Stmt.eq_expression {s : Stmt ρ} {value : Expr Unit} (same : s.bare = .expression value) :
    ∃ e, s = .expression e ∧ e.bare = value := by
  cases s with
  | expression e => exact ⟨e, rfl, Stmt.expression.inj same⟩
  | conditional c t e => cases e <;> cases same
  | _ => cases same

theorem FirstClause.of_bare {s : Stmt ρ} {first : FirstClause Unit}
    (same : s.bare = first.statement) :
    ∃ clause : FirstClause ρ, s = clause.statement ∧ clause.bare = first := by
  cases first with
  | expression value =>
    obtain ⟨e, rfl, rfl⟩ := Stmt.eq_expression same
    exact ⟨.expression e, rfl, rfl⟩
  | declaration name initializer =>
    cases s with
    | declare name' initializer' =>
      obtain ⟨rfl, rfl⟩ := Stmt.declare.inj same
      exact ⟨.declaration name' initializer', rfl, rfl⟩
    | conditional c t e => cases e <;> cases same
    | _ => cases same

theorem ForParts.of_bare_test {c : Expr ρ} {condition : Option (Expr Unit)}
    (same : c.bare = condition.getD (.literal (.boolean true))) :
    ∃ condition' : Option (Expr ρ), c = condition'.getD (.literal (.boolean true)) ∧
      condition'.map Expr.bare = condition := by
  cases condition with
  | some e => exact ⟨some c, rfl, congrArg some same⟩
  | none =>
    cases c with
    | literal value =>
      cases same
      exact ⟨none, rfl, rfl⟩
    | _ => cases same

theorem ForParts.of_bare_round {s : Stmt ρ} {f : ForParts Unit} (same : s.bare = f.round) :
    ∃ (increment : Option (Expr ρ)) (body : Stmt ρ),
      s = ForParts.round ⟨none, none, increment, body⟩ ∧ increment.map Expr.bare = f.increment ∧
        body.bare = f.body := by
  unfold round at same
  cases present : f.increment with
  | none =>
    rw [present] at same
    exact ⟨none, s, rfl, rfl, same⟩
  | some e =>
    rw [present] at same
    obtain ⟨body, step, rfl, bodySame, stepSame⟩ := Stmt.eq_pair same
    obtain ⟨e', rfl, rfl⟩ := Stmt.eq_expression stepSame
    exact ⟨some e', body, rfl, rfl, bodySame⟩

/-- A statement that differs from the tree of the parts in its marks only is made of such parts. -/
theorem ForParts.of_bare {s : Stmt ρ} {f : ForParts Unit} (same : s.bare = f.tree) :
    ∃ g : ForParts ρ, s = g.tree ∧ g.bare = f := by
  have looped {s : Stmt ρ} (same : s.bare = .loop f.test f.round) :
      ∃ condition increment body, (∀ first, s = .loop (ForParts.test ⟨first, condition, increment, body⟩)
          (ForParts.round ⟨first, condition, increment, body⟩)) ∧
        condition.map Expr.bare = f.condition ∧ increment.map Expr.bare = f.increment ∧
          body.bare = f.body := by
    obtain ⟨c, b, rfl, testSame, roundSame⟩ := Stmt.eq_loop same
    obtain ⟨condition, rfl, conditionSame⟩ := of_bare_test testSame
    obtain ⟨increment, body, rfl, incrementSame, bodySame⟩ := of_bare_round roundSame
    exact ⟨condition, increment, body, fun _ => rfl, conditionSame, incrementSame, bodySame⟩
  unfold tree at same
  obtain ⟨first, _, _, _⟩ := f
  cases first with
  | none =>
    obtain ⟨condition, increment, body, whole, rfl, rfl, rfl⟩ := looped same
    exact ⟨⟨none, condition, increment, body⟩, whole none, rfl⟩
  | some first =>
    obtain ⟨s₁, s₂, rfl, firstSame, loopSame⟩ := Stmt.eq_pair same
    obtain ⟨clause, rfl, rfl⟩ := FirstClause.of_bare firstSame
    obtain ⟨condition, increment, body, whole, rfl, rfl, rfl⟩ := looped loopSame
    exact ⟨⟨some clause, condition, increment, body⟩, by rw [whole (some clause)]; rfl, rfl⟩

end

/-! ## Names -/

theorem ForParts.binds_tree {ρ : Type} {g : ForParts ρ} (plain : g.body.binds = []) :
    g.tree.binds = [] := by
  obtain ⟨first, condition, increment, body⟩ := g
  cases first with
  | some first => rfl
  | none =>
    cases increment with
    | some e => rfl
    | none => exact plain

theorem ForTokens.ParsedAs.binds_body {p : ForTokens} {f : ForParts Unit} (h : p.ParsedAs f) :
    f.body.binds = [] := by
  obtain ⟨ending, firstRef, -, -, given⟩ := h.body
  have shaped : Stmt.ShapedAll (fun _ => True) (parseProgram (p.body ++ [ending]) firstRef).result :=
    parseProgram_shaped _ _ fun _ _ _ => trivial
  rw [← Stmt.shapedAll_bare, given] at shaped
  rw [Stmt.Shaped.binds_eq shaped.1, Stmt.declared?_of_not_isDeclaration h.plain]
  rfl

/-- The statement runs as a `for` statement of these parts does, and behind it the scopes that there
were bind the same names, however it ends. -/
structure ForParts.Describes (g : ForParts Place) (s : Stmt Place) : Prop where
  runs : ∀ {m : Machine} {r : Ending Completion}, s.Executes m r → g.Runs m r
  executes : ∀ {m : Machine} {r : Ending Completion}, g.Runs m r → Run.Ended r → s.Executes m r
  names : ∀ (fuel : Nat) (m : Machine) (id : FrameId) (name : String), id < m.store.frames.size →
    ((Run.left ((evaluator fuel).exec s m)).store.frame id).contains name =
      (m.store.frame id).contains name

theorem ForParts.describes_tree (g : ForParts Place) (plain : g.body.binds = []) :
    g.Describes g.tree where
  runs := fun ⟨_, ran⟩ => .of_exec ran
  executes ran ended := ran.executes ended
  names fuel m id name lt := by
    have bound := (evaluator_binds fuel).exec g.tree m
    rw [binds_tree plain] at bound
    rw [Bool.eq_iff_iff]
    constructor
    · intro after
      exact (bound.adds lt after).resolve_right fun new => List.not_mem_nil new.2
    · exact bound.keeps

/-- **A `for` statement is the `while` loop that it stands for.** Whatever tokens are parsed as its
parts, both texts are parsed as the same statement. However references are marked, that statement
runs the first clause once, tests the condition before each round, evaluates the last clause behind
each body that has come to its normal end and behind no other, and binds no name outside. -/
theorem for_is_while {p : ForTokens} {f : ForParts Unit} (h : p.ParsedAs f) :
    (∀ (line : Nat → Nat) (ending : Token) (firstRef : RefId), ending.kind = .endOfInput →
      ((parseProgram (p.asFor line ++ [ending]) firstRef).errors = [] ∧
        (parseProgram (p.asFor line ++ [ending]) firstRef).result.map Stmt.bare = [f.tree]) ∧
      (parseProgram (p.asWhile line ++ [ending]) firstRef).errors = [] ∧
        (parseProgram (p.asWhile line ++ [ending]) firstRef).result.map Stmt.bare = [f.tree]) ∧
    ∀ s : Stmt Place, s.bare = f.tree →
      ∃ g : ForParts Place, g.bare = f ∧ s = g.tree ∧ g.Describes s := by
  refine ⟨fun line ending firstRef ends => h.same_statement line ends firstRef, fun s same => ?_⟩
  obtain ⟨g, rfl, rfl⟩ := ForParts.of_bare same
  have plain : g.body.binds = [] := by
    rw [← Stmt.binds_mapMarks (fun _ _ => ())]
    exact h.binds_body
  exact ⟨g, rfl, rfl, g.describes_tree plain⟩

/-- The parts of `for (var i = true; i; i = nil) print i;`. -/
def oneRound : ForTokens where
  first := some [Keyword.varKw.at 1, ⟨.identifier, "i", 1⟩, Symbol.equal.at 1, Keyword.trueKw.at 1,
    Symbol.semicolon.at 1]
  condition := some [⟨.identifier, "i", 1⟩]
  increment := some [⟨.identifier, "i", 1⟩, Symbol.equal.at 1, Keyword.nilKw.at 1]
  body := [Keyword.printKw.at 2, ⟨.identifier, "i", 2⟩, Symbol.semicolon.at 2]

/-- The parts as they are parsed. -/
def oneRoundParts : ForParts Unit where
  first := some (.declaration ⟨"i", 1⟩ (some (.literal (.boolean true))))
  condition := some (.variable ⟨⟨"i", 1⟩, ()⟩)
  increment := some (.assign ⟨⟨"i", 1⟩, ()⟩ (.literal .nil))
  body := .print (.variable ⟨⟨"i", 2⟩, ()⟩)

theorem for_is_while_oneRound : oneRound.ParsedAs oneRoundParts ∧
    (∀ (line : Nat → Nat) (ending : Token) (firstRef : RefId), ending.kind = .endOfInput →
      ((parseProgram (oneRound.asFor line ++ [ending]) firstRef).errors = [] ∧
        (parseProgram (oneRound.asFor line ++ [ending]) firstRef).result.map Stmt.bare =
          [oneRoundParts.tree]) ∧
      (parseProgram (oneRound.asWhile line ++ [ending]) firstRef).errors = [] ∧
        (parseProgram (oneRound.asWhile line ++ [ending]) firstRef).result.map Stmt.bare =
          [oneRoundParts.tree]) ∧
    ∀ s : Stmt Place, s.bare = oneRoundParts.tree →
      ∃ g : ForParts Place, g.bare = oneRoundParts ∧ s = g.tree ∧ g.Describes s := by
  have ends {ts : List Token} (others : ∀ t ∈ ts, t.isEnd = false) :
      EndsOnce (ts ++ [Token.missingEnd]) := ⟨ts, _, rfl, rfl, others⟩
  have parsed : oneRound.ParsedAs oneRoundParts :=
    { first := .some ⟨_, 0, ends (by decide), rfl, rfl⟩
      condition := .some ⟨_, 0, ends (by decide), rfl, rfl⟩
      increment := .some ⟨_, 0, ends (by decide), rfl, rfl⟩
      body := ⟨_, 0, ends (by decide), rfl, rfl⟩
      plain := rfl }
  exact ⟨parsed, for_is_while parsed⟩

end Lox
