import Lox.Proofs.Token.Scans

/-!
# Layout does not matter

`layOut` writes tokens back, each behind a separator. A separator is made of blanks, line ends and
comments and begins with a blank, so that nothing in front of it goes on into it: only comments and
strings have blanks in them (`Matches.blank_mem`), a comment is no token, and a string that is a token
has been closed. So each token is recognised again by its text alone (`munch_token`), and separators
give nothing (`IsLayout.scans`).
-/

namespace Lox

/-- What a token is without its place. -/
def Token.content (t : Token) : Kind × String := (t.kind, t.lexeme)

/-- The tokens one behind the other, each behind its separator, and a separator behind all. -/
def layOut (spaced : List (String × Token)) (last : String) : String :=
  spaced.foldr (fun (separator, t) text => separator ++ t.lexeme ++ text) last

namespace Lexer

/-- The text is made of blanks, line ends, and comments with the end of their line. -/
inductive IsLayout : List Char → Prop
  | none : IsLayout []
  | blank {c : Char} {rest : List Char} : c ∈ blanks → IsLayout rest → IsLayout (c :: rest)
  | comment {body rest : List Char} : '\n' ∉ body → IsLayout rest →
    IsLayout ('/' :: '/' :: body ++ '\n' :: rest)

/-- Layout that begins with a blank or a line end. -/
structure IsSeparator (text : List Char) : Prop where
  layout : IsLayout text
  begins : ∃ c rest, text = c :: rest ∧ c ∈ blanks

variable {line line' : Nat} {text more : List Char} {kind : Kind} {ts : List Token}

/-! ## Separators -/

theorem munch_blank {c : Char} (blank : c ∈ blanks) (rest : List Char) :
    munch c rest = ⟨.layout, [c], rest⟩ := by
  simp only [blanks, List.mem_cons, List.not_mem_nil, or_false] at blank
  rcases blank with rfl | rfl | rfl | rfl <;> rfl

/-- A comment takes in its line, but not the end of the line. -/
theorem munch_comment {body : List Char} (inside : '\n' ∉ body) (rest : List Char) :
    munch '/' ('/' :: body ++ '\n' :: rest) = ⟨.layout, '/' :: '/' :: body, '\n' :: rest⟩ := by
  have others : ∀ c ∈ body, (c != '\n') = true := by
    intro c mem
    rw [bne_iff_ne]
    rintro rfl
    exact inside mem
  have taken : (body ++ '\n' :: rest).takeWhile (· != '\n') = body := by
    rw [takeWhile_append_line rest body rfl, List.takeWhile_eq_self_iff]
    exact others
  have left : (body ++ '\n' :: rest).dropWhile (· != '\n') = '\n' :: rest := by
    rw [dropWhile_append_line rest body rfl, List.dropWhile_eq_nil_iff.2 others]
    rfl
  have slash : munch '/' ('/' :: body ++ '\n' :: rest) =
    slashPiece ('/' :: (body ++ '\n' :: rest)) := rfl
  rw [slash, slashPiece, taken, left]

theorem newlines_append (front back : List Char) :
    newlines (front ++ back) = newlines front + newlines back := List.count_append

/-- A piece of layout, and what is scanned behind it. -/
theorem Scans.pass {c : Char} {cs front rest : List Char} (piece : munch c cs = ⟨.layout, front, rest⟩)
    (behind : Scans (line + newlines front) rest ts line' more) :
    Scans line (c :: cs) ts line' more := by
  apply Scans.layout (congrArg Piece.form piece)
  rw [piece]
  exact behind

/-- A token, and what is scanned behind it. -/
theorem Scans.take {c : Char} {cs front rest : List Char}
    (piece : munch c cs = ⟨.token kind, front, rest⟩)
    (behind : Scans (line + newlines front) rest ts line' more) :
    Scans line (c :: cs) (⟨kind, String.ofList front, line + newlines front⟩ :: ts) line' more := by
  have scans : Scans (line + newlines (munch c cs).text) (munch c cs).rest ts line' more := by
    rw [piece]
    exact behind
  have taken := Scans.token (congrArg Piece.form piece) scans
  rw [piece] at taken
  exact taken

/-- Layout gives no token, whatever follows it. -/
theorem IsLayout.scans (h : IsLayout text) (line : Nat) (more : List Char) :
    Scans line (text ++ more) [] (line + newlines text) more := by
  induction h generalizing line with
  | none => exact .done
  | @blank c rest blank _ ih =>
    rw [← List.singleton_append, newlines_append, ← Nat.add_assoc]
    exact .pass (munch_blank blank _) (ih _)
  | @comment body rest inside _ ih =>
    have ends : munch '\n' (rest ++ more) = ⟨.layout, ['\n'], rest ++ more⟩ := rfl
    rw [newlines_append, ← List.singleton_append (l := rest), newlines_append, ← Nat.add_assoc,
      ← Nat.add_assoc, List.append_assoc]
    exact .pass (munch_comment inside _) (.pass ends (ih _))

/-! ## Tokens -/

/-- Only layout and strings have blanks in them. -/
theorem Matches.blank_mem {form : Form} (h : Matches form text) {w : Char} (blank : w ∈ blanks)
    (mem : w ∈ text) :
    form = .layout ∨ ∃ value, '"' ∉ value ∧ text = '"' :: value ++ ['"'] := by
  have noDigit : ∀ c ∈ blanks, c.isDigit = false := by simp [blanks]
  have noWord : ∀ c ∈ blanks, isWordPart c = false := by simp [blanks, isWordPart]
  have outside {run : List Char} (digits : IsDigits run) : w ∉ run := by
    intro mem
    have isDigit := digits.digits w mem
    rw [noDigit w blank] at isDigit
    cases isDigit
  have notWord (parts : ∀ c ∈ text, isWordPart c = true) : False := by
    have isPart := parts w mem
    rw [noWord w blank] at isPart
    cases isPart
  cases h with
  | blank | comment => exact .inl rfl
  | string closed => exact .inr ⟨_, closed, rfl⟩
  | symbol s spelled =>
    have none : ∀ c ∈ blanks, c ∉ s.text.toList := by cases s <;> simp [blanks, Symbol.text]
    rw [spelled, String.toList_ofList] at none
    exact absurd mem (none w blank)
  | integer whole => exact absurd mem (outside whole)
  | decimal whole fraction =>
    rcases List.mem_append.1 mem with mem | mem
    · exact absurd mem (outside whole)
    · rcases List.mem_cons.1 mem with rfl | mem
      · exact absurd blank (by decide)
      · exact absurd mem (outside fraction)
  | keyword k spelled =>
    have word := isWord_text k
    rw [spelled, String.toList_ofList] at word
    exact (notWord word.parts).elim
  | identifier word => exact (notWord word.parts).elim

/-- A token is recognised by its text alone. -/
theorem munch_alone {c : Char} {cs : List Char} (h : Matches (.token kind) (c :: cs)) :
    munch c cs = ⟨.token kind, c :: cs, []⟩ := by
  rcases munch_reaches h (List.append_nil _) with same | ⟨longer, -⟩
  · exact same
  · have whole := congrArg List.length (munch_splits c cs).1
    rw [List.length_append] at whole
    omega

/-- No token is the beginning of a comment. -/
theorem Matches.not_comment {c : Char} {cs body : List Char} (h : Matches (.token kind) (c :: cs)) :
    c :: cs ≠ '/' :: '/' :: body := by
  rintro ⟨⟩
  have layout : Form.layout = .token kind := congrArg Piece.form (munch_alone h)
  cases layout

/-- A string that is a token has its second quote. -/
theorem Matches.closed {cs : List Char} (h : Matches (.token kind) ('"' :: cs)) : '"' ∈ cs := by
  by_contra isOpen
  have unclosed := munch_unclosed.2 ⟨rfl, isOpen⟩
  rw [munch_alone h] at unclosed
  cases unclosed

/-- No piece goes on behind a token with a blank. -/
theorem Matches.not_continued {form : Form} {c w : Char} {cs back : List Char}
    (h : Matches (.token kind) (c :: cs)) (blank : w ∈ blanks) :
    ¬ Matches form (c :: cs ++ w :: back) := by
  intro longer
  rcases longer.blank_mem blank (by simp) with rfl | ⟨value, inside, text⟩
  · generalize whole : c :: cs ++ w :: back = text at longer
    cases longer with
    | blank => simp at whole
    | comment =>
      cases cs with
      | nil =>
        cases whole
        exact absurd blank (by decide)
      | cons d ds =>
        cases whole
        exact h.not_comment rfl
  · obtain ⟨rfl, behind⟩ := List.cons.inj text
    rcases List.append_eq_append_iff.1 behind with ⟨_, rfl, -⟩ | ⟨front, -, last⟩
    · exact inside (List.mem_append_left _ h.closed)
    · cases front with
      | nil =>
        cases last
        exact absurd blank (by decide)
      | cons d front => simp at last

/-- A token is recognised by its text in front of a blank. -/
theorem munch_token {c w : Char} {cs : List Char} (h : Matches (.token kind) (c :: cs))
    (blank : w ∈ blanks) (more : List Char) :
    munch c (cs ++ w :: more) = ⟨.token kind, c :: cs, w :: more⟩ := by
  rcases munch_reaches h List.cons_append with same | ⟨longer, noError⟩
  · exact same
  have whole := (munch_splits c (cs ++ w :: more)).1
  have text : ∃ back, (munch c (cs ++ w :: more)).text = c :: cs ++ w :: back := by
    rcases List.append_eq_append_iff.1 (whole.trans List.cons_append.symm) with
      ⟨rest, split, -⟩ | ⟨rest, split, same⟩
    · rw [split, List.length_append] at longer
      omega
    · cases rest with
      | nil =>
        rw [split, List.append_nil] at longer
        exact absurd longer (Nat.lt_irrefl _)
      | cons d rest =>
        obtain ⟨rfl, -⟩ := List.cons.inj same
        exact ⟨rest, split⟩
  obtain ⟨back, text⟩ := text
  rcases munch_fits c (cs ++ w :: more) with fits | ⟨-, stray⟩ | ⟨-, unclosed⟩
  · rw [text] at fits
    exact absurd fits (h.not_continued blank)
  · exact absurd (congrArg Piece.form stray) (noError _)
  · exact absurd (congrArg Piece.form unclosed) (noError _)

/-! ## Texts -/

/-- What is scanned as a token matches. -/
theorem Scans.matches {rest : List Char} (h : Scans line text ts line' rest) :
    ∀ t ∈ ts, Matches (.token t.kind) t.lexeme.toList := by
  induction h with
  | done => simp
  | layout _ _ ih => exact ih
  | @token _ _ c cs _ kind _ form _ ih =>
    intro t mem
    rcases List.mem_cons.1 mem with rfl | later
    · simpa using matches_of_token form
    · exact ih t later

section

variable {spaced : List (String × Token)} {last : String}

/-- What is laid out begins with a blank. -/
theorem layOut_begins
    (separators : ∀ separator ∈ last :: spaced.map Prod.fst, IsSeparator separator.toList) :
    ∃ w more, (layOut spaced last).toList = w :: more ∧ w ∈ blanks := by
  cases spaced with
  | nil => exact (separators last List.mem_cons_self).begins
  | cons p spaced =>
    obtain ⟨w, more, text, blank⟩ := (separators p.1 (by simp)).begins
    refine ⟨w, more ++ (p.2.lexeme ++ layOut spaced last).toList, ?_, blank⟩
    simp [layOut, text]

/-- Tokens that are laid out are scanned as they were. -/
theorem scans_layOut (tokens : ∀ p ∈ spaced, Matches (.token p.2.kind) p.2.lexeme.toList)
    (separators : ∀ separator ∈ last :: spaced.map Prod.fst, IsSeparator separator.toList)
    (line : Nat) :
    ∃ ts line', Scans line (layOut spaced last).toList ts line' [] ∧
      ts.map Token.content = spaced.map (·.2.content) := by
  induction spaced generalizing line with
  | nil =>
    have scans := (separators last List.mem_cons_self).layout.scans line []
    rw [List.append_nil] at scans
    exact ⟨[], _, scans, rfl⟩
  | cons p spaced ih =>
    obtain ⟨separator, t⟩ := p
    have others : ∀ separator ∈ last :: spaced.map Prod.fst, IsSeparator separator.toList := by
      intro separator mem
      apply separators
      rcases List.mem_cons.1 mem with rfl | mem
      · exact List.mem_cons_self
      · exact List.mem_cons_of_mem _ (List.mem_cons_of_mem _ mem)
    obtain ⟨w, more, behind, blank⟩ := layOut_begins others
    have token := tokens _ List.mem_cons_self
    obtain ⟨c, cs, text⟩ := List.exists_cons_of_ne_nil token.ne_nil
    dsimp only at text token
    have before := (separators separator (by simp)).layout.scans line
      (c :: cs ++ (layOut spaced last).toList)
    obtain ⟨ts, line', scans, same⟩ := ih (fun p mem => tokens p (List.mem_cons_of_mem _ mem)) others
      (line + newlines separator.toList + newlines (c :: cs))
    have piece : munch c (cs ++ (layOut spaced last).toList) =
        ⟨.token t.kind, c :: cs, (layOut spaced last).toList⟩ := by
      rw [behind]
      exact munch_token (text ▸ token) blank more
    have content : (t.kind, String.ofList (c :: cs)) = t.content := by
      rw [← text, String.ofList_toList]
      rfl
    have whole : (layOut ((separator, t) :: spaced) last).toList =
        separator.toList ++ (c :: cs ++ (layOut spaced last).toList) := by
      rw [← text]
      simp [layOut]
    have all := before.trans (.take piece scans)
    rw [← whole] at all
    refine ⟨_, line', all, ?_⟩
    rw [List.nil_append, List.map_cons, List.map_cons, same, ← content]
    rfl

end

end Lexer

open Lexer

/-- **Layout does not matter.** If a text has no error, then its tokens, written back with any
separators before, between and behind them, are read again without an error and are the same, in the
same order: each has its sort, its lexeme and its value. -/
theorem layout_irrelevant {source : String} {spaced : List (String × Token)} {ending : Token}
    {last : String} (noErrors : errorsOf (lex source) = [])
    (tokens : tokensOf (lex source) = spaced.map Prod.snd ++ [ending])
    (separators : ∀ separator ∈ last :: spaced.map Prod.fst, IsSeparator separator.toList) :
    errorsOf (lex (layOut spaced last)) = [] ∧
      (tokensOf (lex (layOut spaced last))).map Token.content =
        (tokensOf (lex source)).map Token.content := by
  obtain ⟨ts, scans⟩ := scans_of_lex noErrors
  obtain ⟨read, -⟩ := lex_of_scans scans
  obtain ⟨split, isEnding⟩ := List.append_inj' (read.symm.trans tokens) rfl
  have known : ∀ p ∈ spaced, Matches (.token p.2.kind) p.2.lexeme.toList := by
    intro p mem
    apply scans.matches
    rw [split]
    exact List.mem_map_of_mem mem
  obtain ⟨ts', line, scans', same⟩ := scans_layOut known separators 1
  obtain ⟨read', noErrors'⟩ := lex_of_scans scans'
  refine ⟨noErrors', ?_⟩
  rw [read', read, List.map_append, List.map_append, same, split, List.map_map]
  rfl

/-- A number in front of a point, keywords and words that could join, operators that could grow, and a
string with a comment mark and a line end in it, laid out with comments between them. -/
theorem layout_irrelevant_seams :
    let source := "1.a or ora!==//x\n<=\"// \n\"/"
    let token (kind : Kind) (lexeme : String) (line : Nat) : String × Token :=
      ("\t// \" = 2\n", ⟨kind, lexeme, line⟩)
    let spaced := [
      token (.number (Lexer.numberValue ['1'] [])) "1" 1, token (.symbol .dot) "." 1,
      token .identifier "a" 1, token (.keyword .orKw) "or" 1, token .identifier "ora" 1,
      token (.symbol .bangEqual) "!=" 1, token (.symbol .equal) "=" 1,
      token (.symbol .lessEqual) "<=" 2, token (.string "// \n") "\"// \n\"" 3,
      token (.symbol .slash) "/" 3]
    errorsOf (lex source) = [] ∧ tokensOf (lex source) = spaced.map Prod.snd ++ [.ending 3] ∧
      (∀ separator ∈ " " :: spaced.map Prod.fst, IsSeparator separator.toList) ∧
      errorsOf (lex (layOut spaced " ")) = [] ∧
      (tokensOf (lex (layOut spaced " "))).map Token.content =
        (tokensOf (lex source)).map Token.content := by
  have blank : IsSeparator " ".toList := ⟨.blank (by decide) .none, ' ', [], rfl, by decide⟩
  have comment : IsSeparator "\t// \" = 2\n".toList :=
    ⟨.blank (by decide) (@IsLayout.comment " \" = 2".toList _ (by decide) .none), '\t', _, rfl,
      by decide⟩
  refine ⟨rfl, rfl, ?_, layout_irrelevant rfl rfl ?_⟩
  all_goals
    intro separator mem
    rcases List.mem_cons.1 mem with rfl | mem
    · exact blank
    · have same : separator = "\t// \" = 2\n" := by simpa using mem
      rw [same]
      exact comment

end Lox
