import Lox.Proofs.Session.Batches
import Lox.Proofs.Session.Expressions

/-!
# Printing the value of an expression

To evaluate a text is to run the program that prints it, but for the printing. Expressions and
programs are read, checked and run by functions of their own; that they agree on the text of an
expression between `print` and a semicolon rests on what that text is: the semicolon stands on a
line of its own, so that a comment at the end of the text does not hide it, and closes no string.
-/

namespace Lox

open Lexer (Scans)
open Grammar (Expression Statement Declaration Declarations)

/-- The program that prints the value of an expression. -/
def printing (source : String) : String := "print " ++ source ++ "\n;"

/-! ## The text -/

theorem toList_printing (source : String) :
    (printing source).toList =
      'p' :: 'r' :: 'i' :: 'n' :: 't' :: ' ' :: (source.toList ++ ['\n', ';']) := by
  simp [printing]

/-- The token that a program that prints begins with. -/
def Token.printWord : Token := ⟨.keyword .printKw, "print", 1⟩

/-- The token that ends it. -/
def Token.lastSemicolon (line : Nat) : Token := ⟨.symbol .semicolon, ";", line⟩

namespace Lexer.Scans

variable {line line' : Nat} {text rest : List Char} {ts : List Token}

/-- What is scanned of a text that begins with `print` and a blank. -/
theorem print_iff :
    Scans 1 ('p' :: 'r' :: 'i' :: 'n' :: 't' :: ' ' :: text) ts line [] ↔
      ∃ ts', ts = .printWord :: ts' ∧ Scans 1 text ts' line [] := by
  constructor
  · intro scans
    cases scans with
    | layout form => cases form
    | token form behind =>
      cases form
      cases behind with
      | layout _ behind => exact ⟨_, rfl, behind⟩
      | token form => cases form
  · rintro ⟨ts', rfl, behind⟩
    have blank : Scans 1 (' ' :: text) ts' line [] := .layout rfl behind
    exact .token rfl blank

/-- What is scanned of a line that is a semicolon. -/
theorem semicolon_iff :
    Scans line ['\n', ';'] ts line' [] ↔ ts = [.lastSemicolon (line + 1)] ∧ line' = line + 1 := by
  constructor
  · intro scans
    cases scans with
    | token form => cases form
    | layout _ behind =>
      cases behind with
      | layout form => cases form
      | token form behind =>
        cases form
        cases behind
        exact ⟨rfl, rfl⟩
  · rintro ⟨rfl, rfl⟩
    have semicolon : Scans (line + 1) [';'] [.lastSemicolon (line + 1)] (line + 1) [] :=
      .token rfl .done
    exact .layout rfl semicolon

/-- The program that prints a text is scanned to its end exactly if the text is. -/
theorem printing_iff {source : String} :
    (∃ line, Scans 1 (printing source).toList ts line []) ↔
      ∃ ts' line, ts = .printWord :: ts' ++ [.lastSemicolon (line + 1)] ∧
        Scans 1 source.toList ts' line [] := by
  rw [toList_printing]
  constructor
  · rintro ⟨line, scans⟩
    obtain ⟨ts', rfl, behind⟩ := print_iff.1 scans
    obtain ⟨ts₁, ts₂, middle, inside, last, rfl⟩ := behind.of_append_line (by simp)
    obtain ⟨rfl, -⟩ := semicolon_iff.1 last
    exact ⟨ts₁, middle, rfl, inside⟩
  · rintro ⟨ts', line, rfl, inside⟩
    have last : Scans line ['\n', ';'] [.lastSemicolon (line + 1)] (line + 1) [] :=
      semicolon_iff.2 ⟨rfl, rfl⟩
    exact ⟨line + 1, print_iff.2 ⟨_, rfl, (inside.append_line [';']).trans last⟩⟩

end Lexer.Scans

/-! ## The tree -/

namespace Grammar

/-- A statement that prints is derived by its own rule only. -/
theorem Statement.eq_print {nearest isOpen : Bool} {ts : List Token} {tree : Expr Unit}
    (h : Statement nearest isOpen ts (.print tree)) :
    ∃ word ts' semicolon, ts = word :: ts' ++ [semicolon] ∧ Expression ts' tree := by
  generalize same : Stmt.print tree = s at h
  cases h with
  | print _ e _ =>
    cases same
    exact ⟨_, _, _, rfl, e⟩
  | @forStmt _ _ _ _ _ _ _ _ _ initializer =>
    cases initializer <;> cases same
  | expression e =>
    cases same
    cases e
  | _ => cases same

theorem Declarations.eq_print {nearest : Bool} {ts : List Token} {tree : Expr Unit}
    (h : Declarations nearest ts [.print tree]) :
    ∃ word ts' semicolon, ts = word :: ts' ++ [semicolon] ∧ Expression ts' tree := by
  cases h with
  | more first rest =>
    cases rest
    rw [List.append_nil]
    cases first with
    | «variable» d => cases d
    | statement s => exact s.eq_print

theorem Declarations.print {nearest : Bool} {word semicolon : Token} {ts : List Token}
    {tree : Expr Unit} (isPrint : word.kind = .keyword .printKw) (h : Expression ts tree)
    (ends : semicolon.kind = .symbol .semicolon) :
    Declarations nearest (word :: ts ++ [semicolon]) [.print tree] := by
  rw [← List.append_nil (word :: ts ++ [semicolon])]
  exact .more (.statement (.print isPrint h ends)) .none

end Grammar

section

variable {source : String} {tree : Expr Unit}

theorem Stmt.violationsAll_print (c : Context) :
    Stmt.violationsAll c [.print tree] = tree.violations c := by
  simp [Stmt.violationsAll, Stmt.violations]

/-- A text is an expression exactly if the program that prints it is a single `print`. -/
theorem isProgram_printing : IsProgram (printing source) [.print tree] ↔ IsExpression source tree := by
  constructor
  · rintro ⟨ts, line, scans, items, none⟩
    obtain ⟨ts', line', rfl, inside⟩ := Scans.printing_iff.1 ⟨line, scans⟩
    obtain ⟨word, ts'', semicolon, split, derived⟩ := items.eq_print
    obtain ⟨front, -⟩ := List.append_inj' split rfl
    obtain ⟨-, rfl⟩ := List.cons.inj front
    rw [Stmt.violationsAll_print] at none
    exact ⟨ts', line', inside, derived, none⟩
  · rintro ⟨ts, line, scans, derived, none⟩
    obtain ⟨line', whole⟩ := Scans.printing_iff.2 ⟨ts, line, rfl, scans⟩
    refine ⟨_, line', whole, .print rfl derived rfl, ?_⟩
    rw [Stmt.violationsAll_print]
    exact none

/-! ## The checks -/

/-- A tree and what is run of it are alike in that they are a single `print`. -/
theorem Stmt.single_print {ρ σ : Type} {f : String → ρ → σ} {statements : List (Stmt ρ)}
    {value : Expr σ} (h : Stmt.mapMarksAll f statements = [.print value]) :
    ∃ value', statements = [.print value'] := by
  cases statements with
  | nil => cases h
  | cons s rest =>
    cases rest with
    | cons next rest => simp [Stmt.mapMarksAll] at h
    | nil =>
      cases s with
      | print value' => exact ⟨value', rfl⟩
      | conditional _ _ e => cases e <;> simp [Stmt.mapMarksAll, Stmt.mapMarks] at h
      | _ => simp [Stmt.mapMarksAll, Stmt.mapMarks] at h

theorem Stmt.single_print_of_placed {ρ : Type} {scopes : Scopes} {statements : List (Stmt ρ)}
    {value : Expr Place} (h : Stmt.placedAll scopes statements = [.print value]) :
    ∃ value', statements = [.print value'] := by
  have bare : Stmt.mapMarksAll (fun _ _ => ()) statements = [.print value.bare] := by
    rw [Stmt.mapMarksAll_bare, ← Stmt.bareAll_placed scopes, h]
    rfl
  exact Stmt.single_print bare

namespace Session

variable {s : Session}

/-- The program that prints a text is accepted as a single `print` exactly if the text is an
expression. -/
theorem check_printing :
    (∃ value, (s.check (printing source)).1 = .ok [.print value]) ↔
      ∃ tree, IsExpression source tree := by
  constructor
  · rintro ⟨value, accepted⟩
    obtain ⟨statements, isProgram, runs⟩ := isProgram_of_checkProgram (check_eq_ok.1 accepted)
    have same : Stmt.placedAll [] statements = [.print (runnableExpr value)] := runs.symm
    obtain ⟨tree, rfl⟩ := Stmt.single_print_of_placed same
    exact ⟨tree, isProgram_printing.1 isProgram⟩
  · rintro ⟨tree, isExpression⟩
    obtain ⟨located, accepted, runs⟩ :=
      checkProgram_of_isProgram (isProgram_printing.2 isExpression) s.nextRef
    obtain ⟨value, rfl⟩ := Stmt.single_print runs
    exact ⟨value, check_eq_ok.2 accepted⟩

/-- What an evaluation answers of an expression, and the machine that it leaves. -/
theorem evaluate_of_isExpression {tree : Expr Unit} (h : IsExpression source tree) (s : Session)
    (fuel : Nat) :
    (s.evaluate fuel source).1 = Run.answer ((evaluator fuel).eval (tree.placed []) s.machine) ∧
      (s.evaluate fuel source).2.machine =
        Run.left ((evaluator fuel).eval (tree.placed []) s.machine) := by
  obtain ⟨located, accepted, evaluates⟩ := checkExpression_of_isExpression h s.nextRef
  simp only [evaluate, accepted, evaluates, perform_eq]
  exact ⟨trivial, trivial⟩

/-- What is not rejected is an expression. -/
theorem evaluate_rejects {fuel : Nat} :
    (∃ reports, (s.evaluate fuel source).1 = .error (.rejected reports)) ↔
      ¬ ∃ tree, IsExpression source tree := by
  constructor
  · rintro ⟨reports, rejected⟩ ⟨tree, isExpression⟩
    rw [(evaluate_of_isExpression isExpression s fuel).1] at rejected
    cases result : (evaluator fuel).eval (tree.placed []) s.machine with
    | ok v m =>
      rw [result] at rejected
      cases rejected
    | error stop m =>
      rw [result] at rejected
      cases stop <;> cases rejected
  · intro none
    cases checked : checkExpression (readExpression source s.nextRef) with
    | error reports => exact ⟨reports, by simp only [evaluate, checked]⟩
    | ok located =>
      obtain ⟨tree, isExpression, -⟩ := isExpression_of_checkExpression checked
      exact absurd ⟨tree, isExpression⟩ none

end Session

end

/-! ## The runs -/

/-- The machine after a line is printed and the sink is flushed. -/
def Machine.printed (m : Machine) (line : String) : Machine :=
  Machine.asked { m with sink := m.sink.take line }

/-- What comes of printing the value of an expression, given what comes of evaluating it. -/
def Run.thenPrint : EStateM.Result Stop Machine Value → EStateM.Result Stop Machine Unit
  | .ok v m => .ok () (m.printed (v.text ++ "\n"))
  | .error .outOfFuel m => .error .outOfFuel m
  | .error (.fault f) m => .error (.fault f) m.asked

/-- A program that prints the value of an expression evaluates it first, one level deeper. -/
theorem Run.interpret_print (n : Nat) (e : Expr Place) {m : Machine}
    (reliable : m.sink.Accepting) :
    Run.interpret (n + 1) [.print e] m = thenPrint ((evaluator n).eval e m) := by
  have still := reliable.after ((refusal_uniform.evaluator n).eval e)
  cases result : (evaluator n).eval e m with
  | ok v m' =>
    rw [result] at still
    have accepts : m'.sink.refusal .write m'.sink.requests = none := still _ _
    have ran : Run.program (evaluator (n + 1)) [.print e] m =
        .ok () { m' with sink := m'.sink.take (v.text ++ "\n") } := by
      simp only [Run.program, evaluator, Run.execWith, Run.write, Bind.bind, EStateM.bind, result,
        accepts]
      rfl
    have flushes : Sink.Accepting { m' with sink := m'.sink.take (v.text ++ "\n") }.sink := still
    simp only [Run.interpret, ran]
    exact flushes.flush
  | error stop m' =>
    rw [result] at still
    have accepts : m'.sink.Accepting := still
    have stopped : Run.program (evaluator (n + 1)) [.print e] m = .error stop m' := by
      simp only [Run.program, evaluator, Run.execWith, Bind.bind, EStateM.bind, result]
    cases stop with
    | outOfFuel => simp only [Run.interpret, stopped, thenPrint]
    | fault f => simp only [Run.interpret, stopped, thenPrint, accepts.flush]

/-- **To evaluate a text is to run the program that prints it.** On any session, a text is rejected
by an evaluation exactly if the program that prints it is not accepted as a single `print`. If it is
accepted, and the sink refuses nothing, the run of the program, one level deeper, succeeds exactly if
the evaluation gives a value, and then prints the text of the value and a line end behind all that the
evaluation prints. It stops with a fault exactly if the evaluation stops with that fault, and runs out
of fuel exactly if the evaluation does, and has printed the same. Both leave the same machine, but for
what the sink has got. -/
theorem evaluation_agrees_with_printing (s : Session) (source : String) :
    (∀ fuel, (∃ reports, (s.evaluate fuel source).1 = .error (.rejected reports)) ↔
      ¬ ∃ value, (s.check (printing source)).1 = .ok [.print value]) ∧
    (s.machine.sink.Accepting → (∃ value, (s.check (printing source)).1 = .ok [.print value]) →
      ∀ fuel,
        let evaluated := s.evaluate fuel source
        let ran := s.run (fuel + 1) (printing source)
        (ran.1 = .ok () ↔ ∃ value, evaluated.1 = .ok value) ∧
        (∀ value, evaluated.1 = .ok value → ran.2.machine.sink.written =
          evaluated.2.machine.sink.written ++ (value.text ++ "\n")) ∧
        (∀ f, ran.1 = .error (.stopped f) ↔ evaluated.1 = .error (.stopped f)) ∧
        (ran.1 = .error .unfinished ↔ evaluated.1 = .error .unfinished) ∧
        (∀ e, evaluated.1 = .error e →
          ran.2.machine.sink.written = evaluated.2.machine.sink.written) ∧
        ran.2.machine = { evaluated.2.machine with
          sink := { evaluated.2.machine.sink with
            written := ran.2.machine.sink.written
            requests := ran.2.machine.sink.requests } }) := by
  constructor
  · intro fuel
    rw [Session.check_printing, Session.evaluate_rejects]
  · intro reliable accepted fuel evaluated ran
    obtain ⟨tree, isExpression⟩ := Session.check_printing.1 accepted
    obtain ⟨answer, leaves⟩ := Session.evaluate_of_isExpression isExpression s fuel
    obtain ⟨answer', leaves'⟩ :=
      Session.run_of_isProgram (isProgram_printing.2 isExpression) s (fuel + 1)
    have prints : Stmt.placedAll [] [.print tree] = [.print (tree.placed [])] := rfl
    rw [prints, Run.interpret_print fuel _ reliable] at answer' leaves'
    simp only [evaluated, ran]
    rw [answer, leaves, answer', leaves']
    cases (evaluator fuel).eval (tree.placed []) s.machine with
    | ok v m => simp [Run.thenPrint, Run.answer, Run.left, Machine.printed, Machine.asked, Sink.asked,
        Sink.take]
    | error stop m =>
      cases stop with
      | outOfFuel => simp [Run.thenPrint, Run.answer, Run.left, RunError.ofStop]
      | fault f => simp [Run.thenPrint, Run.answer, Run.left, RunError.ofStop, Machine.asked, Sink.asked]

-- the comment does not hide the semicolon
theorem evaluation_agrees_with_printing_comment :
    let s := Session.start .reliable (.ticking 0)
    let ran := s.run 10 (printing "!nil // a comment")
    s.machine.sink.Accepting ∧
      (∃ value, (s.check (printing "!nil // a comment")).1 = .ok [.print value]) ∧
      (s.evaluate 9 "!nil // a comment").1 = .ok (.boolean true) ∧ ran.1 = .ok () ∧
        ran.2.machine.sink.written = "true\n" := by
  intro s ran
  have reliable : s.machine.sink.Accepting := fun _ _ => rfl
  obtain ⟨_, checked⟩ : ∃ e, checkExpression (readExpression "!nil // a comment" 0) = .ok e :=
    ⟨_, rfl⟩
  obtain ⟨tree, isExpression, -⟩ := isExpression_of_checkExpression checked
  have accepted : ∃ value, (s.check (printing "!nil // a comment")).1 = .ok [.print value] :=
    Session.check_printing.2 ⟨tree, isExpression⟩
  have value : (s.evaluate 9 "!nil // a comment").1 = .ok (.boolean true) := rfl
  have printed : (s.evaluate 9 "!nil // a comment").2.machine.sink.written = "" := rfl
  obtain ⟨succeeds, prints, -⟩ :=
    (evaluation_agrees_with_printing s "!nil // a comment").2 reliable accepted 9
  refine ⟨reliable, accepted, value, succeeds.2 ⟨_, value⟩, ?_⟩
  rw [prints _ value, printed]
  rfl

end Lox
