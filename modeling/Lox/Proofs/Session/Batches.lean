import Lox.Proofs.Run.Parts
import Lox.Proofs.Session.Programs

/-!
# Texts in parts

Two texts that a session accepts can be run one after the other or as one text, with the second one
on the lines below the first. Both ways come to the same.
-/

namespace Lox

open Lexer (Scans newlines)
open Grammar (Declarations)

/-- The texts as one, the second one on the lines below the first. -/
def joinLines (first second : String) : String := first ++ "\n" ++ second

/-- The second text on the lines on which it stands below the first. -/
def linesBelow (first second : String) : String :=
  String.ofList (List.replicate (newlines first.toList + 1) '\n') ++ second

/-- The session accepts the text as a program. -/
def Session.Accepts (s : Session) (source : String) : Prop :=
  ∃ located, (s.check source).1 = .ok located

/-! ## Programs of two parts -/

theorem Grammar.Declarations.append {nearest : Bool} {ts ts' : List Token}
    {ss ss' : List (Stmt Unit)} (first : Declarations nearest ts ss)
    (second : Declarations nearest ts' ss') : Declarations nearest (ts ++ ts') (ss ++ ss') := by
  induction ss generalizing ts with
  | nil =>
    cases first
    exact second
  | cons s ss ih =>
    cases first with
    | more head tail =>
      rw [List.append_assoc]
      exact .more head (ih tail)

/-- No statement opens a scope for what is behind it. -/
theorem Stmt.scopesAfter_nil {ρ : Type} : ∀ s : Stmt ρ, s.scopesAfter [] = []
  | .expression _ | .print _ | .declare .. | .block _ | .ret .. | .classDecl .. => rfl
  | .function ⟨_, _, _⟩ => rfl
  | .conditional _ t none => t.scopesAfter_nil
  | .conditional _ t (some e) => by rw [Stmt.scopesAfter, t.scopesAfter_nil, e.scopesAfter_nil]
  | .loop _ b => b.scopesAfter_nil

/-- At the top level, what stands behind other statements stands as if it were alone. -/
theorem Stmt.violationsAll_append {ρ : Type} (ss ts : List (Stmt ρ)) :
    Stmt.violationsAll .top (ss ++ ts) = Stmt.violationsAll .top ss ++ Stmt.violationsAll .top ts := by
  induction ss with
  | nil => rfl
  | cons s ss ih =>
    have same : Context.top.within (s.scopesAfter Context.top.scopes) = .top := by
      rw [show Context.top.scopes = [] from rfl, s.scopesAfter_nil]
      rfl
    rw [List.cons_append, Stmt.violationsAll, Stmt.violationsAll, same, ih, List.append_assoc]

theorem Stmt.placedAll_append {ρ : Type} (ss ts : List (Stmt ρ)) :
    Stmt.placedAll [] (ss ++ ts) = Stmt.placedAll [] ss ++ Stmt.placedAll [] ts := by
  induction ss with
  | nil => rfl
  | cons s ss ih =>
    rw [List.cons_append, Stmt.placedAll_cons, Stmt.placedAll_cons, s.scopesAfter_nil, ih,
      List.cons_append]

section

variable {first second : String} {tree tree' : List (Stmt Unit)}

/-- The text on the lines below another is a program if it is one by itself. -/
theorem IsProgram.below (h : IsProgram second tree) (k : Nat) :
    ∃ ts line, Scans (1 + k) second.toList ts line [] ∧
      Declarations true ts (Stmt.mapLinesAll (· + k) tree) ∧
        Stmt.violationsAll .top (Stmt.mapLinesAll (· + k) tree) = [] := by
  obtain ⟨ts, line, scans, items, none⟩ := h
  refine ⟨_, _, scans.later k, items.mapLines (· + k), ?_⟩
  rw [Stmt.violationsAll_mapLines, none]
  rfl

/-- The tree of a text on the lines below another. -/
theorem IsProgram.linesBelow (h : IsProgram second tree) (first : String) :
    IsProgram (Lox.linesBelow first second)
      (Stmt.mapLinesAll (· + (newlines first.toList + 1)) tree) := by
  obtain ⟨ts, line, scans, items, none⟩ := h.below (newlines first.toList + 1)
  refine ⟨ts, line, ?_, items, none⟩
  have padded := (Scans.lineEnds 1 (newlines first.toList + 1) second.toList).trans scans
  rw [Lox.linesBelow, String.toList_append, String.toList_ofList]
  exact padded

/-- The tree of two texts is that of the first and, on the lines below it, that of the second. -/
theorem IsProgram.joinLines (h : IsProgram first tree) (h' : IsProgram second tree') :
    IsProgram (Lox.joinLines first second)
      (tree ++ Stmt.mapLinesAll (· + (newlines first.toList + 1)) tree') := by
  obtain ⟨ts, line, scans, items, none⟩ := h
  obtain ⟨ts', line', scans', items', none'⟩ := h'.below (newlines first.toList + 1)
  have ends : 1 + newlines first.toList = line := by
    have lines := scans.newlines_eq
    simpa [newlines] using lines
  have next : Scans line ('\n' :: second.toList) [] (1 + (newlines first.toList + 1))
      second.toList := by
    have lineEnd := Scans.lineEnds line 1 second.toList
    rw [← ends] at lineEnd ⊢
    exact lineEnd
  refine ⟨ts ++ ([] ++ ts'), line', ?_, items.append items', ?_⟩
  · have text : (Lox.joinLines first second).toList = first.toList ++ '\n' :: second.toList := by
      simp [Lox.joinLines]
    rw [text]
    exact (scans.append_line second.toList).trans (next.trans scans')
  · rw [Stmt.violationsAll_append, none, none']
    rfl

end

/-! ## Sessions -/

/-- What is answered to a run that ends so. -/
def Run.answer {α : Type} : EStateM.Result Stop Machine α → Except RunError α
  | .ok a _ => .ok a
  | .error stop _ => .error (.ofStop stop)

@[simp] theorem Run.answer_changed {α : Type} (f : Machine → Machine)
    (result : EStateM.Result Stop Machine α) : answer (changed f result) = answer result := by
  cases result <;> rfl

@[simp] theorem Run.left_changed {α : Type} (f : Machine → Machine)
    (result : EStateM.Result Stop Machine α) : left (changed f result) = f (left result) := by
  cases result <;> rfl

namespace Session

variable {s : Session} {source : String} {tree : List (Stmt Unit)}

/-- What a session says of a text that it accepts. -/
theorem check_eq_ok {located : List (Stmt (RefId × Place))} :
    (s.check source).1 = .ok located ↔ checkProgram (readProgram source s.nextRef) = .ok located := by
  unfold check
  exact mapError_eq_ok

/-- A session accepts the texts that are programs. -/
theorem accepts_iff : s.Accepts source ↔ ∃ tree, IsProgram source tree := by
  constructor
  · rintro ⟨located, accepted⟩
    obtain ⟨tree, isProgram, -⟩ := isProgram_of_checkProgram (check_eq_ok.1 accepted)
    exact ⟨tree, isProgram⟩
  · rintro ⟨tree, isProgram⟩
    obtain ⟨located, accepted, -⟩ := checkProgram_of_isProgram isProgram s.nextRef
    exact ⟨located, check_eq_ok.2 accepted⟩

theorem perform_eq {α : Type} (s : Session) (act : Run α) :
    s.perform act =
      (Run.answer (act s.machine), { s with machine := Run.left (act s.machine) }) := by
  unfold perform
  cases act s.machine <;> rfl

/-- What a session answers to a text that is accepted, and the machine that it leaves. -/
theorem run_of_check {located : List (Stmt (RefId × Place))}
    (accepted : (s.check source).1 = .ok located) (fuel : Nat) :
    (s.run fuel source).1 = Run.answer (Run.interpret fuel (runnable located) s.machine) ∧
      (s.run fuel source).2.machine =
        Run.left (Run.interpret fuel (runnable located) s.machine) := by
  simp only [run, check_eq_ok.1 accepted, perform_eq]
  exact ⟨trivial, trivial⟩

/-- What a run of a program answers, and the machine that it leaves. -/
theorem run_of_isProgram (h : IsProgram source tree) (s : Session) (fuel : Nat) :
    (s.run fuel source).1 =
        Run.answer (Run.interpret fuel (Stmt.placedAll [] tree) s.machine) ∧
      (s.run fuel source).2.machine =
        Run.left (Run.interpret fuel (Stmt.placedAll [] tree) s.machine) := by
  obtain ⟨located, accepted, runs⟩ := checkProgram_of_isProgram h s.nextRef
  rw [← runs]
  exact run_of_check (check_eq_ok.2 accepted) fuel

end Session

/-! ## Both ways -/

section

variable {fuel : Nat} {first : List (Stmt Place)} {m : Machine}

/-- Behind a part that comes to its end, the sink is flushed, and still refuses nothing. -/
theorem Run.interpret_finished {m' : Machine} (reliable : m.sink.Accepting)
    (ran : Run.program (evaluator fuel) first m = .ok () m') :
    m'.sink.Accepting ∧ Run.interpret fuel first m = .ok () m'.asked := by
  have still := reliable.after (refusal_uniform.program (refusal_uniform.evaluator fuel) first)
  rw [ran] at still
  have still : m'.sink.Accepting := still
  constructor
  · exact still
  · simp only [Run.interpret, ran]
    exact still.flush

/-- A part that stops does not come to its end by the sink being flushed behind it. -/
theorem Run.interpret_stopped {stop : Stop} {m' : Machine}
    (ran : Run.program (evaluator fuel) first m = .error stop m') :
    ∃ stop' m'', Run.interpret fuel first m = .error stop' m'' := by
  simp only [Run.interpret, ran]
  cases stop with
  | outOfFuel => exact ⟨_, _, rfl⟩
  | fault f =>
    dsimp only
    cases Run.flush m' with
    | ok _ m'' => exact ⟨_, _, rfl⟩
    | error stop' m'' => exact ⟨_, _, rfl⟩

/-- If the first part stops, the whole stops so. -/
theorem Run.interpret_append_stopped (second : List (Stmt Place)) {e : RunError}
    (stops : answer (Run.interpret fuel first m) = .error e) (reliable : m.sink.Accepting) :
    Run.interpret fuel (first ++ second) m = Run.interpret fuel first m := by
  cases ran : Run.program (evaluator fuel) first m with
  | error stop m' => exact interpret_append_error ran
  | ok _ m' =>
    rw [(interpret_finished reliable ran).2] at stops
    cases stops

/-- If the first part comes to its end, the second one runs behind it, but with the sink asked once
less. -/
theorem Run.interpret_append_finished (second : List (Stmt Place))
    (finishes : answer (Run.interpret fuel first m) = .ok ()) (reliable : m.sink.Accepting) :
    let whole := Run.interpret fuel (first ++ second) m
    let rest := Run.interpret fuel second (left (Run.interpret fuel first m))
    answer whole = answer rest ∧ (left whole).asked = left rest := by
  intro whole rest
  cases ran : Run.program (evaluator fuel) first m with
  | error stop m' =>
    obtain ⟨stop', m'', stops⟩ := interpret_stopped ran
    rw [stops] at finishes
    cases finishes
  | ok _ m' =>
    obtain ⟨still, flushed⟩ := interpret_finished reliable ran
    have after : whole = Run.interpret fuel second m' := interpret_append_ok ran
    have behind : rest = changed Machine.delayed whole := by
      have commutes := Commutes.interpret_delayed fuel second m'
      rw [still.delayed_eq] at commutes
      rw [after, ← commutes]
      simp only [rest, flushed, left]
    have last : (left whole).sink.Accepting := by
      rw [after]
      exact still.after (Preserves.interpret refusal_uniform fuel second)
    rw [behind, answer_changed, left_changed, last.delayed_eq]
    exact ⟨rfl, rfl⟩

end

/-- **A text runs as its parts do.** On any session whose sink refuses nothing, and with any fuel, two
texts that are accepted are accepted as one. If the run of the first one stops, that of both stops as
it does and leaves what it leaves. Otherwise the run of both does what the run of the second one does
behind that of the first, if it stands on the same lines there; but the sink, which is flushed behind
each run, has been asked once less. -/
theorem batch_runs_parts (s : Session) (reliable : s.machine.sink.Accepting) (first second : String)
    (acceptsFirst : s.Accepts first) (acceptsSecond : s.Accepts second) (fuel : Nat) :
    let both := s.run fuel (joinLines first second)
    let alone := s.run fuel first
    let rest := alone.2.run fuel (linesBelow first second)
    s.Accepts (joinLines first second) ∧
      (∀ e, alone.1 = .error e → both.1 = .error e ∧ both.2.machine = alone.2.machine) ∧
      (alone.1 = .ok () → alone.2.Accepts (linesBelow first second) ∧
        both.1 = rest.1 ∧ both.2.machine.asked = rest.2.machine) := by
  intro both alone rest
  obtain ⟨tree, isFirst⟩ := Session.accepts_iff.1 acceptsFirst
  obtain ⟨tree', isSecond⟩ := Session.accepts_iff.1 acceptsSecond
  have isBoth := isFirst.joinLines isSecond
  have isRest := isSecond.linesBelow first
  obtain ⟨answerFirst, leftFirst⟩ := Session.run_of_isProgram isFirst s fuel
  obtain ⟨answerBoth, leftBoth⟩ := Session.run_of_isProgram isBoth s fuel
  obtain ⟨answerRest, leftRest⟩ := Session.run_of_isProgram isRest alone.2 fuel
  rw [Stmt.placedAll_append] at answerBoth leftBoth
  let below := Stmt.placedAll [] (Stmt.mapLinesAll (· + (newlines first.toList + 1)) tree')
  refine ⟨Session.accepts_iff.2 ⟨_, isBoth⟩, fun e stops => ?_, fun finishes => ?_⟩
  · rw [answerFirst] at stops
    have same := Run.interpret_append_stopped below stops reliable
    rw [same] at answerBoth leftBoth
    exact ⟨answerBoth.trans stops, leftBoth.trans leftFirst.symm⟩
  · rw [answerFirst] at finishes
    obtain ⟨sameAnswer, sameMachine⟩ := Run.interpret_append_finished below finishes reliable
    refine ⟨Session.accepts_iff.2 ⟨_, isRest⟩, ?_, ?_⟩
    · rw [answerBoth, answerRest, leftFirst]
      exact sameAnswer
    · rw [leftBoth, leftRest, leftFirst]
      exact sameMachine

-- the second text reads a global that the first one declares
theorem batch_runs_parts_global :
    let s := Session.start .reliable (.ticking 0)
    let both := s.run 9 (joinLines "var a = true;" "print a;")
    let alone := s.run 9 "var a = true;"
    let rest := alone.2.run 9 (linesBelow "var a = true;" "print a;")
    s.machine.sink.Accepting ∧ s.Accepts "var a = true;" ∧ s.Accepts "print a;" ∧
      alone.1 = .ok () ∧ both.1 = rest.1 ∧ both.2.machine.asked = rest.2.machine ∧
        both.2.machine.sink.written = "true\n" := by
  have reliable : (Session.start .reliable (.ticking 0)).machine.sink.Accepting := fun _ _ => rfl
  have first : (Session.start .reliable (.ticking 0)).Accepts "var a = true;" := ⟨_, rfl⟩
  have second : (Session.start .reliable (.ticking 0)).Accepts "print a;" := ⟨_, rfl⟩
  have below := (batch_runs_parts _ reliable _ _ first second 9).2.2 rfl
  exact ⟨reliable, first, second, rfl, below.2.1, below.2.2, by decide +kernel⟩

end Lox
