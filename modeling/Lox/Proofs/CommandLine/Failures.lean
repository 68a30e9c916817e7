import Lox.CommandLine
import Lox.Proofs.Scope.Checks

/-!
# Texts that the commands reject

Each command assembles the phases by itself. They agree all the same on the files that are in error:
what stops an earlier phase stops every command that goes through it, and is reported in the same
words, before anything is written or has run.
-/

namespace Lox

/-! ## Reports as lines -/

/-- Reports one below the other, and a line end behind the last one. -/
theorem Diagnostic.joinText_lineEnd {reports : List Diagnostic} (some : reports ≠ []) :
    joinText reports ++ "\n" = CommandLine.asLines (reports.map text) := by
  induction reports with
  | nil => exact absurd rfl some
  | cons report rest ih =>
    cases rest with
    | nil => simp [joinText, CommandLine.asLines]
    | cons next rest =>
      have behind := ih (List.cons_ne_nil next rest)
      simp only [joinText, List.map_cons, String.intercalate_cons_cons, String.append_assoc,
        CommandLine.asLines, String.join_cons] at behind ⊢
      rw [behind]

theorem CommandLine.asLines_append (texts texts' : List String) :
    asLines (texts ++ texts') = asLines texts ++ asLines texts' := by
  simp [asLines]

/-! ## What a phase finds, later phases report -/

/-- The reports of a text: those about its tokens, and then those of the parse. -/
theorem readSource_reports {α : Type} (parse : List Token → RefId → Parsed α) (source : String)
    (firstRef : RefId) : ∃ more, (readSource parse source firstRef).reports =
      (errorsOf (lex source)).map LexError.diagnostic ++ more :=
  ⟨_, rfl⟩

theorem readSource_reports_ne_nil {α : Type} {source : String}
    (errors : errorsOf (lex source) ≠ []) (parse : List Token → RefId → Parsed α)
    (firstRef : RefId) : (readSource parse source firstRef).reports ≠ [] := by
  obtain ⟨more, reports⟩ := readSource_reports parse source firstRef
  rw [reports]
  simp [errors]

namespace CommandLine

variable (fuel : Nat) (clock : Clock) {source : String} {reports : List Diagnostic}

/-! ## How the commands fail -/

theorem tokenize_exit : (tokenize source).exit = 65 ↔ errorsOf (lex source) ≠ [] := by
  cases errors : errorsOf (lex source) <;> simp [tokenize, errors]

/-- A text that is rejected for its tokens, and perhaps for more, is reported as `tokenize` does. -/
theorem rejected_stderr (errors : errorsOf (lex source) ≠ []) (more : List Diagnostic) :
    (Outcome.failure (.rejected ((errorsOf (lex source)).map LexError.diagnostic ++ more)) "").stderr =
      (tokenize source).stderr ++ asLines (more.map Diagnostic.text) := by
  have some : (errorsOf (lex source)).map LexError.diagnostic ++ more ≠ [] := by simp [errors]
  calc (Outcome.failure (.rejected ((errorsOf (lex source)).map LexError.diagnostic ++ more)) "").stderr
      = asLines (((errorsOf (lex source)).map LexError.diagnostic ++ more).map Diagnostic.text) :=
        Diagnostic.joinText_lineEnd some
    _ = asLines ((errorsOf (lex source)).map fun e => e.diagnostic.text) ++
          asLines (more.map Diagnostic.text) := by
        rw [List.map_append, asLines_append, List.map_map]
        rfl

theorem parse_of_reports (json : Bool) (some : (readProgram source 0).reports ≠ []) :
    parse json source = .failure (.rejected (readProgram source 0).reports) "" := by
  rw [parse, if_pos]
  simpa using some

theorem parse_of_noReports (json : Bool) (none : (readProgram source 0).reports = []) :
    (parse json source).exit = 0 ∧ (parse json source).stderr = "" := by
  rw [parse, if_neg (by simp [none])]
  cases json <;> exact ⟨rfl, rfl⟩

theorem resolve_of_error (rejected : checkProgram (readProgram source 0) = .error reports) :
    resolve source = .failure (.rejected reports) "" := by
  simp only [resolve, rejected]

theorem resolve_of_ok {located : List (Stmt (RefId × Place))}
    (accepted : checkProgram (readProgram source 0) = .ok located) : (resolve source).exit = 0 := by
  simp only [resolve, accepted]
  rfl

theorem run_of_error (rejected : checkProgram (readProgram source 0) = .error reports) :
    run fuel clock source = .failure (.rejected reports) "" ∧
      ((Session.start .reliable clock).run fuel source).2.machine = .start .reliable clock := by
  have same : checkProgram (readProgram source (Session.start .reliable clock).nextRef) =
    .error reports := rejected
  simp only [run, Session.run, same]
  exact ⟨rfl, rfl⟩

/-- A run that stops is no rejection. -/
theorem perform_exit {α : Type} (s : Session) (act : Run α) (e : RunError)
    (stops : (s.perform act).1 = .error e) : e.exitCode = 70 := by
  unfold Session.perform at stops
  split at stops
  · cases stops
  · next stop _ _ =>
    cases stops
    cases stop <;> rfl

theorem run_of_ok {located : List (Stmt (RefId × Place))}
    (accepted : checkProgram (readProgram source 0) = .ok located) :
    (run fuel clock source).exit ≠ 65 := by
  have same : checkProgram (readProgram source (Session.start .reliable clock).nextRef) =
    .ok located := accepted
  simp only [run, Session.run, same]
  split
  · simp [Outcome.success]
  · next e stops =>
    have exit := perform_exit _ _ e stops
    simp [Outcome.failure, exit]

theorem evaluate_of_error (rejected : checkExpression (readExpression source 0) = .error reports) :
    evaluate fuel clock source = .failure (.rejected reports) "" ∧
      ((Session.start .reliable clock).evaluate fuel source).2.machine = .start .reliable clock := by
  have same : checkExpression (readExpression source (Session.start .reliable clock).nextRef) =
    .error reports := rejected
  simp only [evaluate, Session.evaluate, same]
  exact ⟨rfl, rfl⟩

theorem evaluate_of_ok {located : Expr (RefId × Place)}
    (accepted : checkExpression (readExpression source 0) = .ok located) :
    (evaluate fuel clock source).exit ≠ 65 := by
  have same : checkExpression (readExpression source (Session.start .reliable clock).nextRef) =
    .ok located := accepted
  simp only [evaluate, Session.evaluate, same]
  split
  · simp [Outcome.success]
  · next e stops =>
    have exit := perform_exit _ _ e stops
    simp [Outcome.failure, exit]

/-! ## What one failure says about the others -/

/-- What `tokenize` finds makes every other command fail, with the same reports first. -/
theorem fails_of_tokenize (fails : (tokenize source).exit = 65) {c : Command}
    (reads : c ∈ [.parse false, .parse true, .resolve, .run, .evaluate]) :
    (c.onSource fuel clock source).exit = 65 ∧
      ∃ more, (c.onSource fuel clock source).stderr = (tokenize source).stderr ++ more := by
  have errors := tokenize_exit.1 fails
  have program := readSource_reports_ne_nil errors parseProgram 0
  have expression := readSource_reports_ne_nil errors parseExpression 0
  -- every command reports what is wrong with the tokens, and then what else it has found
  have rejected {more : List Diagnostic} (outcome : c.onSource fuel clock source = .failure
      (.rejected ((errorsOf (lex source)).map LexError.diagnostic ++ more)) "") :
      (c.onSource fuel clock source).exit = 65 ∧
        ∃ more, (c.onSource fuel clock source).stderr = (tokenize source).stderr ++ more := by
    rw [outcome]
    exact ⟨rfl, _, rejected_stderr errors more⟩
  simp only [List.mem_cons, List.not_mem_nil, or_false] at reads
  rcases reads with rfl | rfl | rfl | rfl | rfl
  · exact rejected (parse_of_reports _ program)
  · exact rejected (parse_of_reports _ program)
  · exact rejected (resolve_of_error (checkProgram_of_reports program))
  · exact rejected (run_of_error fuel clock (checkProgram_of_reports program)).1
  · exact rejected (evaluate_of_error fuel clock (checkExpression_of_reports expression)).1

/-- Both ways of writing the statements fail alike. -/
theorem parse_fails_alike (json json' : Bool) :
    (parse json source).exit = (parse json' source).exit ∧
      (parse json source).stderr = (parse json' source).stderr := by
  by_cases none : (readProgram source 0).reports = []
  · obtain ⟨exit, stderr⟩ := parse_of_noReports json none
    obtain ⟨exit', stderr'⟩ := parse_of_noReports json' none
    exact ⟨exit.trans exit'.symm, stderr.trans stderr'.symm⟩
  · rw [parse_of_reports _ none, parse_of_reports _ none]
    exact ⟨rfl, rfl⟩

/-- What `parse` rejects, `resolve` and `run` reject in the same words. -/
theorem fails_of_parse {json : Bool} (fails : (parse json source).exit = 65) :
    resolve source = parse json source ∧ run fuel clock source = parse json source := by
  by_cases none : (readProgram source 0).reports = []
  · rw [(parse_of_noReports _ none).1] at fails
    cases fails
  · have rejected := checkProgram_of_reports none
    rw [parse_of_reports _ none]
    exact ⟨resolve_of_error rejected, (run_of_error fuel clock rejected).1⟩

/-- `resolve` and `run` reject the same files in the same words. -/
theorem resolve_fails_iff :
    (resolve source).exit = 65 ↔ (run fuel clock source).exit = 65 := by
  cases checked : checkProgram (readProgram source 0) with
  | error reports => rw [resolve_of_error checked, (run_of_error fuel clock checked).1]
  | ok located => simp [resolve_of_ok checked, run_of_ok fuel clock checked]

theorem resolve_fails_alike (fails : (resolve source).exit = 65) :
    run fuel clock source = resolve source := by
  cases checked : checkProgram (readProgram source 0) with
  | error reports => rw [resolve_of_error checked, (run_of_error fuel clock checked).1]
  | ok located =>
    rw [resolve_of_ok checked] at fails
    cases fails

theorem resolve_of_run_stops (stops : (run fuel clock source).exit = 70) :
    (resolve source).exit = 0 := by
  cases checked : checkProgram (readProgram source 0) with
  | error reports =>
    rw [(run_of_error fuel clock checked).1] at stops
    cases stops
  | ok located => exact resolve_of_ok checked

/-! ## A text in error does not run -/

theorem parse_fails_silently {json : Bool} (fails : (parse json source).exit = 65) :
    (parse json source).stdout = "" := by
  by_cases none : (readProgram source 0).reports = []
  · rw [(parse_of_noReports _ none).1] at fails
    cases fails
  · rw [parse_of_reports _ none]
    rfl

theorem run_fails_silently (fails : (run fuel clock source).exit = 65) :
    (run fuel clock source).stdout = "" ∧
      ((Session.start .reliable clock).run fuel source).2.machine = .start .reliable clock := by
  cases checked : checkProgram (readProgram source 0) with
  | error reports =>
    obtain ⟨outcome, still⟩ := run_of_error fuel clock checked
    rw [outcome]
    exact ⟨rfl, still⟩
  | ok located => exact absurd fails (run_of_ok fuel clock checked)

theorem evaluate_fails_silently (fails : (evaluate fuel clock source).exit = 65) :
    (evaluate fuel clock source).stdout = "" ∧
      ((Session.start .reliable clock).evaluate fuel source).2.machine = .start .reliable clock := by
  cases checked : checkExpression (readExpression source 0) with
  | error reports =>
    obtain ⟨outcome, still⟩ := evaluate_of_error fuel clock checked
    rw [outcome]
    exact ⟨rfl, still⟩
  | ok located => exact absurd fails (evaluate_of_ok fuel clock checked)

theorem resolve_fails_silently (fails : (resolve source).exit = 65) :
    (resolve source).stdout = "" := by
  have runFails := (resolve_fails_iff 0 (.ticking 0)).1 fails
  rw [← resolve_fails_alike 0 (.ticking 0) fails]
  exact (run_fails_silently _ _ runFails).1

end CommandLine

/-- What an invocation does for a file that is text is what its command does with the text. -/
theorem Invocation.execute_of_text {files : String → FileReading} {name source : String}
    {bytes : List UInt8} (contents : files name = .contents bytes)
    (isText : Utf8.decode bytes = .ok source) {c : Command} (reads : c ≠ .repl) (fuel : Nat)
    (clock : Clock) (log : Bool) (typed : String) :
    Invocation.execute ⟨c, some name, log⟩ fuel clock files typed = c.onSource fuel clock source := by
  have text : CommandLine.sourceOf name (files name) = .ok source := by
    rw [contents, CommandLine.sourceOf, isText]
  cases c with
  | repl => exact absurd rfl reads
  | _ => simp only [execute, text]

/-- **The commands agree on files in error.** Take any file that is text, and any fuel, clock and
options of each command. Where `tokenize` fails, the other commands fail and begin with its reports.
Both forms of `parse` fail on the same files with the same reports; where they fail, `resolve` and
`run` fail with those reports; and `resolve` fails exactly where `run` fails for the text, with the
same reports. A command that fails for the text has written nothing else, and nothing has run. A run
that stops is of a text that `resolve` does not reject. -/
theorem commands_agree_on_failures {files : String → FileReading} {name source : String}
    {bytes : List UInt8} (contents : files name = .contents bytes)
    (isText : Utf8.decode bytes = .ok source) (fuel : Command → Nat) (clock : Command → Clock)
    (log : Command → Bool) (typed : Command → String) :
    let outcome (c : Command) : Outcome :=
      Invocation.execute ⟨c, some name, log c⟩ (fuel c) (clock c) files (typed c)
    let others : List Command := [.parse false, .parse true, .resolve, .run, .evaluate]
    ((outcome .tokenize).exit = 65 → ∀ c ∈ others, (outcome c).exit = 65 ∧
      ∃ more, (outcome c).stderr = (outcome .tokenize).stderr ++ more) ∧
    ((outcome (.parse false)).exit = (outcome (.parse true)).exit ∧
      (outcome (.parse false)).stderr = (outcome (.parse true)).stderr) ∧
    ((outcome (.parse false)).exit = 65 → ∀ c ∈ [Command.resolve, .run],
      (outcome c).exit = 65 ∧ (outcome c).stderr = (outcome (.parse false)).stderr) ∧
    ((outcome .resolve).exit = 65 ↔ (outcome .run).exit = 65) ∧
    ((outcome .resolve).exit = 65 → (outcome .run).stderr = (outcome .resolve).stderr) ∧
    (∀ c ∈ others, (outcome c).exit = 65 → (outcome c).stdout = "") ∧
    ((outcome .run).exit = 65 →
      ((Session.start .reliable (clock .run)).run (fuel .run) source).2.machine =
        .start .reliable (clock .run)) ∧
    ((outcome .evaluate).exit = 65 →
      ((Session.start .reliable (clock .evaluate)).evaluate (fuel .evaluate) source).2.machine =
        .start .reliable (clock .evaluate)) ∧
    ((outcome .run).exit = 70 → (outcome .resolve).exit = 0) := by
  intro outcome others
  have onSource (c : Command) (reads : c ≠ .repl) :
      outcome c = c.onSource (fuel c) (clock c) source :=
    Invocation.execute_of_text contents isText reads (fuel c) (clock c) (log c) (typed c)
  have tokenized : outcome .tokenize = CommandLine.tokenize source := onSource _ (by decide)
  have parsed (json : Bool) : outcome (.parse json) = CommandLine.parse json source :=
    onSource _ (by simp)
  have resolved : outcome .resolve = CommandLine.resolve source := onSource _ (by decide)
  have ran : outcome .run = CommandLine.run (fuel .run) (clock .run) source := onSource _ (by decide)
  have evaluated : outcome .evaluate =
    CommandLine.evaluate (fuel .evaluate) (clock .evaluate) source := onSource _ (by decide)
  refine ⟨?tokens, ?forms, ?statements, ?scopes, ?reports, ?silent, ?unrun, ?unevaluated, ?stops⟩
  case tokens =>
    intro fails c reads
    have file : c ≠ .repl := by
      rintro rfl
      simp [others] at reads
    rw [tokenized] at fails ⊢
    rw [onSource c file]
    exact CommandLine.fails_of_tokenize _ _ fails reads
  case forms =>
    rw [parsed, parsed]
    exact CommandLine.parse_fails_alike false true
  case statements =>
    intro fails
    rw [parsed] at fails
    obtain ⟨sameResolve, sameRun⟩ :=
      CommandLine.fails_of_parse (fuel .run) (clock .run) fails
    simp only [List.mem_cons, List.not_mem_nil, or_false, forall_eq_or_imp, forall_eq]
    rw [resolved, ran, parsed, sameResolve, sameRun]
    exact ⟨⟨fails, rfl⟩, fails, rfl⟩
  case scopes =>
    rw [resolved, ran]
    exact CommandLine.resolve_fails_iff _ _
  case reports =>
    intro fails
    rw [resolved] at fails
    rw [ran, resolved, CommandLine.resolve_fails_alike _ _ fails]
  case silent =>
    simp only [others, List.mem_cons, List.not_mem_nil, or_false, forall_eq_or_imp, forall_eq]
    rw [parsed, parsed, resolved, ran, evaluated]
    exact ⟨CommandLine.parse_fails_silently, CommandLine.parse_fails_silently,
      CommandLine.resolve_fails_silently, fun fails => (CommandLine.run_fails_silently _ _ fails).1,
      fun fails => (CommandLine.evaluate_fails_silently _ _ fails).1⟩
  case unrun =>
    rw [ran]
    exact fun fails => (CommandLine.run_fails_silently _ _ fails).2
  case unevaluated =>
    rw [evaluated]
    exact fun fails => (CommandLine.evaluate_fails_silently _ _ fails).2
  case stops =>
    rw [ran, resolved]
    exact CommandLine.resolve_of_run_stops _ _

-- an unclosed string behind a statement that would print
theorem commands_agree_on_failures_unclosedString :
    let bytes : List UInt8 := [112, 114, 105, 110, 116, 32, 116, 114, 117, 101, 59, 32, 34]
    let files : String → FileReading := fun _ => .contents bytes
    let outcome (c : Command) := Invocation.execute ⟨c, some "a.lox", false⟩ 9 (.ticking 0) files ""
    Utf8.decode bytes = .ok "print true; \"" ∧ (outcome .tokenize).exit = 65 ∧
      (outcome .run).exit = 65 ∧ (outcome .run).stdout = "" ∧
        ∃ more, (outcome .run).stderr = "[line 1] Error: Unterminated string.\n" ++ more := by
  intro bytes files outcome
  have isText : Utf8.decode bytes = .ok "print true; \"" := by rfl
  have agree := commands_agree_on_failures (show files "a.lox" = .contents bytes from rfl)
    isText (fun _ => 9) (fun _ => .ticking 0) (fun _ => false) (fun _ => "")
  have fails : (outcome .tokenize).exit = 65 := by decide +kernel
  have reported : (outcome .tokenize).stderr = "[line 1] Error: Unterminated string.\n" := by
    decide +kernel
  obtain ⟨exit, more, stderr⟩ := agree.1 fails .run (by decide)
  rw [← reported]
  exact ⟨isText, fails, exit, agree.2.2.2.2.2.1 .run (by decide) exit, more, stderr⟩

end Lox
