import Lox.Proofs.Token.Classes

/-!
# Words

A word is an identifier only if it is no keyword. So the names that methods find their instance and
their superclass by, which are keywords, stand for no variable of a program.
-/

namespace Lox

namespace Lexer

/-- A scanned token matches its kind, unless it is the end. -/
theorem matches_of_mem_lexFrom {fuel line : Nat} {text : List Char} {t : Token}
    (mem : .ok t ∈ lexFrom fuel line text) :
    t.kind = .endOfInput ∨ Matches (.token t.kind) t.lexeme.toList := by
  induction fuel generalizing line text with
  | zero =>
    cases text with
    | nil =>
      simp only [lexFrom, List.mem_singleton, Except.ok.injEq] at mem
      exact .inl (congrArg Token.kind mem)
    | cons c cs => simp [lexFrom] at mem
  | succ fuel ih =>
    cases text with
    | nil =>
      simp only [lexFrom, List.mem_singleton, Except.ok.injEq] at mem
      exact .inl (congrArg Token.kind mem)
    | cons c cs =>
      simp only [lexFrom] at mem
      split at mem
      · exact ih mem
      · next kind form =>
        rcases List.mem_cons.1 mem with same | later
        · cases same
          exact .inr (by simpa using matches_of_token form)
        · exact ih later
      · rcases List.mem_cons.1 mem with same | later
        · cases same
        · exact ih later

end Lexer

theorem mem_tokensOf {items : List (Except LexError Token)} {t : Token} :
    t ∈ tokensOf items ↔ .ok t ∈ items := by
  constructor
  · intro mem
    obtain ⟨item, isItem, same⟩ := List.mem_filterMap.1 mem
    cases item with
    | ok t' =>
      cases same
      exact isItem
    | error e => cases same
  · exact fun isItem => List.mem_filterMap.2 ⟨_, isItem, rfl⟩

/-- An identifier of a text is no keyword. -/
theorem ofText?_of_identifier {source : String} {t : Token} (mem : t ∈ tokensOf (lex source))
    (identifier : t.kind = .identifier) : Keyword.ofText? t.lexeme = none := by
  rcases Lexer.matches_of_mem_lexFrom (mem_tokensOf.1 mem) with isEnd | matched
  · rw [identifier] at isEnd
    cases isEnd
  · rw [identifier] at matched
    cases matched with
    | identifier _ other => simpa using Lexer.ofText?_eq_none_iff.2 other

end Lox
