import Lox.Proofs.History.Blame
import Lox.Proofs.Parser.Origins
import Lox.Proofs.Session.Programs
import Lox.Proofs.Token.Lines
import Lox.Proofs.Token.Words

/-!
# Reported lines are lines of the text

The items of a text are on its lines, and the lines of its tokens are all that is ever reported: a
syntax error is at a token of the text, what is misplaced is on the line of a token, and a runtime
error is on a line of the tree, which is made of tokens (`Chronicled.interpret_fails_on`). A text
ends with a token for its end, so none is missing, and the token that would stand for a missing one
is in no error and in no tree.
-/

namespace Lox

open Lexer (newlines Piece itemsFrom itemCount itemsFrom_getElem?_last itemsFrom_ends_at
  itemsFrom_line_le splitsInto_lexFrom)

/-- The text has this line. Lines are counted from one, and behind each line end there is one
more. -/
def HasLine (source : String) (line : Nat) : Prop :=
  1 ≤ line ∧ line ≤ 1 + newlines source.toList

/-! ## Items -/

section

variable {source : String}

theorem hasLine_item {item : Except LexError Token} (mem : item ∈ lex source) :
    HasLine source (itemLine item) := by
  obtain ⟨pieces, splits, items⟩ := splitsInto_lexFrom 1 (Nat.le_refl source.toList.length)
  have items : lex source = itemsFrom 1 pieces := items
  rw [items] at mem
  refine ⟨itemsFrom_line_le 1 pieces item mem, ?_⟩
  obtain ⟨i, found⟩ := List.mem_iff_getElem?.1 mem
  obtain ⟨front, -, part, line⟩ := itemsFrom_ends_at splits found
  rw [line]
  exact Nat.add_le_add_left (part.sublist.count_le '\n') 1

theorem hasLine_token {t : Token} (mem : t ∈ tokensOf (lex source)) : HasLine source t.line :=
  hasLine_item (mem_tokensOf.1 mem)

theorem hasLine_lexError {e : LexError} (mem : e ∈ errorsOf (lex source)) :
    HasLine source e.line := by
  obtain ⟨item, isItem, same⟩ := List.mem_filterMap.1 mem
  cases item with
  | ok t => cases same
  | error e' =>
    cases same
    exact hasLine_item isItem

/-- Lines of tokens are lines of the text. -/
theorem LineFrom.hasLine {line : Nat} (h : LineFrom (· ∈ tokensOf (lex source)) line) :
    HasLine source line := by
  obtain ⟨t, mem, rfl⟩ := h
  exact hasLine_token mem

/-- A text ends with a token for its end. -/
theorem exists_end (source : String) : ∃ t ∈ tokensOf (lex source), t.isEnd = true := by
  obtain ⟨pieces, -, items⟩ := splitsInto_lexFrom 1 (Nat.le_refl source.toList.length)
  have items : lex source = itemsFrom 1 pieces := items
  have last := List.mem_of_getElem? (itemsFrom_getElem?_last 1 pieces)
  rw [← items] at last
  exact ⟨_, mem_tokensOf.2 last, rfl⟩

/-! ## What is read and run -/

/-- Statements that are read are made of the tokens of the text, and errors are at some of them. -/
theorem program_from_source (source : String) (firstRef : RefId) :
    let tokens := tokensOf (lex source)
    Stmt.FromAll (· ∈ tokens) (parseProgram tokens firstRef).result ∧
      ∀ e ∈ (parseProgram tokens firstRef).errors, e.token ∈ tokens :=
  parseProgram_from (fun _ mem => mem) (.inr (exists_end source)) firstRef

/-- Places are found without a change to where a tree comes from. -/
theorem Stmt.fromAll_placed {ok : Token → Prop} {ρ : Type} (scopes : Scopes) (ss : List (Stmt ρ)) :
    Stmt.FromAll ok (Stmt.placedAll scopes ss) ↔ Stmt.FromAll ok ss := by
  rw [← Stmt.fromAll_mapMarks (fun _ _ => ()) ss, Stmt.mapMarksAll_bare,
    ← Stmt.bareAll_placed scopes, ← Stmt.mapMarksAll_bare, Stmt.fromAll_mapMarks]

variable {firstRef : RefId}

/-- What is wrong with a text is on lines of it. -/
theorem hasLine_of_checkProgram {reports : List Diagnostic}
    (rejected : checkProgram (readProgram source firstRef) = .error reports) :
    ∀ r ∈ reports, ∃ line, r.line? = some line ∧ HasLine source line := by
  obtain ⟨made, errors⟩ := program_from_source source firstRef
  intro r mem
  rcases checkProgram_eq_error.1 rejected with ⟨rfl, -⟩ | ⟨-, violations, failed, rfl⟩
  · rcases List.mem_append.1 mem with mem | mem
    · obtain ⟨e, isError, rfl⟩ := List.mem_map.1 mem
      exact ⟨e.line, rfl, hasLine_lexError isError⟩
    · obtain ⟨e, isError, rfl⟩ := List.mem_map.1 mem
      exact ⟨e.token.line, rfl, hasLine_token (errors e isError)⟩
  · obtain ⟨v, isViolation, rfl⟩ := List.mem_map.1 mem
    obtain ⟨rfl, -⟩ := resolve_eq_error.1 failed
    exact ⟨v.line, rfl, (Stmt.FromAll.violation made isViolation).hasLine⟩

/-- What is run of a text that is accepted is made of its tokens. -/
theorem runnable_from_source {located : List (Stmt (RefId × Place))}
    (accepted : checkProgram (readProgram source firstRef) = .ok located) :
    Stmt.FromAll (· ∈ tokensOf (lex source)) (runnable located) := by
  obtain ⟨made, -⟩ := program_from_source source firstRef
  obtain ⟨-, resolved⟩ := checkProgram_eq_ok.1 accepted
  obtain ⟨-, rfl⟩ := resolve_eq_ok.1 resolved
  exact (Stmt.fromAll_placed [] _).2 made

/-- A runtime error of a text that runs first in a session is on a line of it. -/
theorem hasLine_of_interpret {located : List (Stmt (RefId × Place))}
    (accepted : checkProgram (readProgram source firstRef) = .ok located) {sink : Sink}
    {clock : Clock} {fuel : Nat} {cause : RuntimeCause} {line : Nat} {m : Machine}
    (failed : Run.interpret fuel (runnable located) (.start sink clock) =
      .error (.fault (.runtime cause line)) m) : HasLine source line := by
  let code (n : Node) : Prop := n = .statements (runnable located)
  have rooted : ∀ n, code n → n.Scoped .top := by
    rintro n rfl
    exact checkProgram_scoped accepted
  have made : ∀ n, code n → n.From (· ∈ tokensOf (lex source)) := by
    rintro n rfl
    exact runnable_from_source accepted
  let start := (ChronicledSession.start sink clock).chronicle
  have sound : start.Sound code := ChronicledSession.start_sound code sink clock
  have same := Chronicled.Tells.interpret fuel (runnable located) start
  cases ended : Chronicled.interpret fuel (runnable located) start with
  | ok a w =>
    rw [ended] at same
    cases same.trans failed
  | error stop w =>
    rw [ended] at same
    cases same.trans failed
    exact (Chronicled.interpret_fails_on rooted made sound ⟨.top, .root rfl⟩ ended).hasLine

/-- What a session reports of a text that runs first in it is on lines of the text, if it is on a
line at all. -/
theorem hasLine_of_run {sink : Sink} {clock : Clock} {fuel : Nat} {e : RunError}
    (answered : ((Session.start sink clock).run fuel source).1 = .error e) {r : Diagnostic}
    (mem : r ∈ e.reports) {line : Nat} (onLine : r.line? = some line) : HasLine source line := by
  unfold Session.run at answered
  dsimp only at answered
  split at answered
  · next reports rejected =>
    cases answered
    obtain ⟨line', onLine', has⟩ := hasLine_of_checkProgram rejected r mem
    cases onLine.symm.trans onLine'
    exact has
  · next located accepted =>
    unfold Session.perform at answered
    split at answered
    · cases answered
    · next stop m failed =>
      cases answered
      cases stop with
      | outOfFuel =>
        cases List.mem_singleton.1 mem
        cases onLine
      | fault f =>
        cases List.mem_singleton.1 mem
        cases f with
        | mismatch | io => cases onLine
        | runtime cause line =>
          cases onLine
          exact hasLine_of_interpret accepted failed

end

/-- **Reported lines exist.** The tokens of a text are on lines of it, and the one that stands for a
missing end is none of them. Trees are made of tokens of the text, and syntax errors are at some of
them. What a session reports when it checks the text is on lines of it, and so is a runtime error
when the text runs first in a session. -/
theorem reported_lines_exist (source : String) :
    (∀ t ∈ tokensOf (lex source), HasLine source t.line) ∧
    Token.missingEnd ∉ tokensOf (lex source) ∧
    (∀ firstRef,
      let tokens := tokensOf (lex source)
      let program := parseProgram tokens firstRef
      let expression := parseExpression tokens firstRef
      Stmt.FromAll (· ∈ tokens) program.result ∧ (∀ e ∈ program.errors, e.token ∈ tokens) ∧
        Expr.From? (· ∈ tokens) expression.result ∧ ∀ e ∈ expression.errors, e.token ∈ tokens) ∧
    (∀ (s : Session) e, (s.check source).1 = .error e →
      ∀ r ∈ e.reports, ∃ line, r.line? = some line ∧ HasLine source line) ∧
    ∀ sink clock fuel e, ((Session.start sink clock).run fuel source).1 = .error e →
      ∀ r ∈ e.reports, ∀ line, r.line? = some line → HasLine source line := by
  refine ⟨fun t => hasLine_token, fun missing => ?_, fun firstRef => ?_, fun s e answered => ?_,
    fun sink clock fuel e answered r mem line => hasLine_of_run answered mem⟩
  · exact absurd (hasLine_token missing).1 (by decide)
  · obtain ⟨made, errors⟩ := program_from_source source firstRef
    exact ⟨made, errors,
      parseExpression_from (fun _ mem => mem) (.inr (exists_end source)) firstRef⟩
  · unfold Session.check at answered
    dsimp only at answered
    cases checked : checkProgram (readProgram source s.nextRef) with
    | ok located =>
      rw [checked] at answered
      cases answered
    | error reports =>
      rw [checked] at answered
      cases answered
      exact hasLine_of_checkProgram checked

/-- A text whose last line is a misplaced statement, and one that fails in a function, on the line on
which the parenthesis of the call closes. -/
theorem reported_lines_exist_inFunction :
    let s := Session.start .reliable (.ticking 0)
    let e := RunError.rejected [.scoping 3 "Can't return from top-level code."]
    let e' := RunError.stopped (.runtime .notCallable 3)
    ((s.check "\x7b\n\x7d\nreturn;").1 = .error e ∧
      ∀ r ∈ e.reports, ∃ line, r.line? = some line ∧ HasLine "\x7b\n\x7d\nreturn;" line) ∧
      (s.run 9 "fun f() \x7b\nnil(\n); \x7d\nf();").1 = .error e' ∧
        ∀ r ∈ e'.reports, ∀ line, r.line? = some line →
          HasLine "fun f() \x7b\nnil(\n); \x7d\nf();" line := by
  have rejected : ((Session.start .reliable (.ticking 0)).check "\x7b\n\x7d\nreturn;").1 =
    .error (.rejected [.scoping 3 "Can't return from top-level code."]) := rfl
  have failed :
      ((Session.start .reliable (.ticking 0)).run 9 "fun f() \x7b\nnil(\n); \x7d\nf();").1 =
        .error (.stopped (.runtime .notCallable 3)) := rfl
  intro s e e'
  exact ⟨⟨rejected, (reported_lines_exist _).2.2.2.1 s e rejected⟩, failed,
    (reported_lines_exist _).2.2.2.2 .reliable (.ticking 0) 9 e' failed⟩

end Lox
