import Lox.Proofs.Parser.Details
import Lox.Proofs.Syntax.ReadBack
import Lox.Proofs.Token.Words

/-!
# The text of a parsed tree determines the tree

The names of parsed trees are those of identifiers, and their literals are those of tokens that have
been scanned. So they are legible, unless they have a string in them, which may look like anything,
or a number that is too large for a double: the text of infinity is that of an identifier.
-/

namespace Lox

open Lexer (Matches)

/-- The token is one of those of a source text. -/
def Token.Scanned (t : Token) : Prop := ∃ source, t ∈ tokensOf (lex source)

/-- A scanned token other than the end has the text of its kind. -/
theorem Token.Scanned.matches {t : Token} (h : t.Scanned) (notEnd : t.isEnd = false) :
    Matches (.token t.kind) t.lexeme.toList := by
  obtain ⟨source, mem⟩ := h
  rcases Lexer.matches_of_mem_lexFrom (mem_tokensOf.1 mem) with isEnd | matched
  · rw [Token.isEnd, isEnd] at notEnd
    cases notEnd
  · exact matched

/-- The literal is neither a string nor infinity. -/
def Literal.isPlain : Literal → Bool
  | .number value => !value.isInf
  | .string _ => false
  | .boolean _ | .nil => true

/-- The detail is no literal but a plain one. -/
def Detail.isPlain {ρ : Type} : Detail ρ → Bool
  | .literal value => value.isPlain
  | .branch _ | .reference _ _ | .name _ | .list _ => true

section

variable {tokens : List Token} {firstRef : RefId} (scanned : ∀ t ∈ tokens, t.Scanned)
include scanned

theorem isName_of_scanned {t : Token} (mem : t ∈ tokens) (identifier : t.kind = .identifier) :
    IsName t.lexeme := by
  have spelled := (scanned t mem).matches (Token.isEnd_of_kind identifier rfl)
  rw [identifier] at spelled
  exact spelled

theorem Detail.Holds.legible {register : Register tokens firstRef} {clean : Prop}
    {d : Detail RefId} (holds : d.Holds register clean) (plain : d.isPlain = true) : d.Legible := by
  match d with
  | .branch _ | .list _ | .reference .this _ | .reference .super _ => trivial
  | .literal (.boolean _) | .literal .nil => trivial
  | .literal (.string _) => cases plain
  | .literal (.number value) =>
    obtain ⟨t, mem, kind⟩ := holds
    have small : value.isInf = false := by simpa [isPlain, Literal.isPlain] using plain
    have spelled := (scanned t mem).matches (Token.isEnd_of_kind kind rfl)
    rw [kind] at spelled
    exact Number.finite_of_matches spelled small
  | .name written =>
    obtain ⟨t, mem, identifier, rfl⟩ := holds
    exact isName_of_scanned scanned mem identifier
  | .reference .variable target =>
    obtain ⟨e, mem, isVariable, rfl⟩ := holds
    obtain ⟨t, isToken, reads⟩ := register.read e mem
    rw [isVariable] at reads
    obtain ⟨identifier, named⟩ := reads
    rw [Legible, named]
    exact isName_of_scanned scanned (List.mem_of_getElem? isToken) identifier

theorem legible_of_parseProgram {s : Stmt RefId} (mem : s ∈ (parseProgram tokens firstRef).result)
    (plain : s.details.all Detail.isPlain = true) : Legible s.details := by
  obtain ⟨register, -, holds⟩ := parseProgram_details tokens firstRef
  intro d isDetail
  have known := holds d (Stmt.mem_detailsAll.2 ⟨s, mem, isDetail⟩)
  exact known.legible scanned (List.all_eq_true.1 plain d isDetail)

theorem legible_of_parseExpression {e : Expr RefId}
    (isResult : (parseExpression tokens firstRef).result = some e)
    (plain : e.details.all Detail.isPlain = true) : Legible e.details := by
  obtain ⟨register, -, holds⟩ := parseExpression_details tokens firstRef
  intro d isDetail
  rw [isResult] at holds
  exact (holds d isDetail).legible scanned (List.all_eq_true.1 plain d isDetail)

end

/-- **The text of a parsed tree determines it.** Take any two lists of tokens that have been
scanned, each of them from any source text, and number their references from anywhere. If two
statements that they are parsed as have neither a string nor infinity among their literals and are
written as the same text, they are the same but for their lines and the numbers of their references;
and so are two expressions. -/
theorem text_determines_tree {tokens tokens' : List Token} (scanned : ∀ t ∈ tokens, t.Scanned)
    (scanned' : ∀ t ∈ tokens', t.Scanned) (firstRef firstRef' : RefId) :
    (∀ s ∈ (parseProgram tokens firstRef).result,
      ∀ s' ∈ (parseProgram tokens' firstRef').result,
        s.details.all Detail.isPlain = true → s'.details.all Detail.isPlain = true →
          s.text = s'.text → s.plain = s'.plain) ∧
    ∀ e ∈ (parseExpression tokens firstRef).result,
      ∀ e' ∈ (parseExpression tokens' firstRef').result,
        e.details.all Detail.isPlain = true → e'.details.all Detail.isPlain = true →
          e.text = e'.text → e.plain = e'.plain :=
  ⟨fun _ mem _ mem' plain plain' => Stmt.plain_eq_of_text
      (legible_of_parseProgram scanned mem plain) (legible_of_parseProgram scanned' mem' plain'),
    fun _ mem _ mem' plain plain' => Expr.plain_eq_of_text
      (legible_of_parseExpression scanned mem plain)
      (legible_of_parseExpression scanned' mem' plain')⟩

/-- Two texts of a statement that differ in layout and in the digits of their numbers. -/
theorem text_determines_tree_layout :
    let tokens := tokensOf (lex "if (x > 1) y.f = -x; else print super.m(2);")
    let tokens' := tokensOf (lex "if(x>1.0)// positive\ny . f=- x;else\nprint super.m(2.00);")
    (∀ t ∈ tokens, t.Scanned) ∧ (∀ t ∈ tokens', t.Scanned) ∧
      ∃ s s', (parseProgram tokens 0).result = [s] ∧ (parseProgram tokens' 7).result = [s'] ∧
        s.details.all Detail.isPlain = true ∧ s'.details.all Detail.isPlain = true ∧
        s.text = "(if (> x 1.0) (; (.= y f (- x))) (print (call (super m) 2.0)))" ∧
        s.text = s'.text ∧ s.plain = s'.plain := by
  intro tokens tokens'
  have scanned : ∀ t ∈ tokens, t.Scanned := fun t mem => ⟨_, mem⟩
  have scanned' : ∀ t ∈ tokens', t.Scanned := fun t mem => ⟨_, mem⟩
  obtain ⟨s, read, plain, text⟩ : ∃ s, (parseProgram tokens 0).result = [s] ∧
      s.details.all Detail.isPlain = true ∧
      s.text = "(if (> x 1.0) (; (.= y f (- x))) (print (call (super m) 2.0)))" :=
    ⟨_, rfl, by decide +kernel, by decide +kernel⟩
  obtain ⟨s', read', plain', text'⟩ : ∃ s, (parseProgram tokens' 7).result = [s] ∧
      s.details.all Detail.isPlain = true ∧
      s.text = "(if (> x 1.0) (; (.= y f (- x))) (print (call (super m) 2.0)))" :=
    ⟨_, rfl, by decide +kernel, by decide +kernel⟩
  have same : s.text = s'.text := text.trans text'.symm
  have mem : s ∈ (parseProgram tokens 0).result := read ▸ List.mem_cons_self
  have mem' : s' ∈ (parseProgram tokens' 7).result := read' ▸ List.mem_cons_self
  exact ⟨scanned, scanned', s, s', read, read', plain, plain', text, same,
    (text_determines_tree scanned scanned' 0 7).1 s mem s' mem' plain plain' same⟩

end Lox
