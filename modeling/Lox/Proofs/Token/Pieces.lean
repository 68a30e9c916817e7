import Lox.Proofs.Token.Scans

/-!
# The pieces of a text

A text is split into pieces, each of them the one that the rest of the text begins with. There is one
way to do this (`SplitsInto.unique`), and the items that `lex` gives are those of the pieces. The
pieces are slices of the text, one behind the other, and nothing of the text is left out.
-/

namespace Lox.Lexer

/-- The text is split into these pieces. -/
inductive SplitsInto : List Char → List Piece → Prop
  | done : SplitsInto [] []
  | more {text : List Char} {p : Piece} {ps : List Piece} :
    Begins text p → SplitsInto p.rest ps → SplitsInto text (p :: ps)

/-- The text of the piece. -/
def Piece.lexeme (p : Piece) : String := String.ofList p.text

/-- What a piece gives that ends on the line. Layout gives nothing. -/
def Piece.item? (p : Piece) (line : Nat) : Option (Except LexError Token) :=
  match p.form with
  | .layout => none
  | .token kind => some (.ok ⟨kind, p.lexeme, line⟩)
  | .error cause => some (.error ⟨cause, line⟩)

/-- What the pieces of a text give that begins on the line, and its end. -/
def itemsFrom (line : Nat) : List Piece → List (Except LexError Token)
  | [] => [.ok (.ending line)]
  | p :: ps =>
    let line := line + newlines p.text
    (p.item? line).toList ++ itemsFrom line ps

/-- The text of pieces one behind the other. -/
def textOf (ps : List Piece) : String := String.ofList (ps.flatMap Piece.text)

/-- The piece is what stands in the text between two of its bytes at which a character begins or the
text ends. -/
structure Piece.IsSlice (p : Piece) (source : String) (start : Nat) : Prop where
  begins : (String.Pos.Raw.mk start).IsValid source
  ends : (String.Pos.Raw.mk (start + p.lexeme.utf8ByteSize)).IsValid source
  bytes : source.toByteArray.extract start (start + p.lexeme.utf8ByteSize) = p.lexeme.toByteArray

theorem Begins.eq_munch {text : List Char} {p : Piece} (h : Begins text p) :
    ∃ c cs, text = c :: cs ∧ p = munch c cs := by
  cases text with
  | nil => exact absurd h not_begins_nil_text
  | cons c cs => exact ⟨c, cs, rfl, begins_iff.1 h⟩

section

variable {text : List Char} {ps : List Piece}

theorem SplitsInto.unique {other : List Piece} (h : SplitsInto text ps)
    (h' : SplitsInto text other) : other = ps := by
  induction h generalizing other with
  | done =>
    cases h' with
    | done => rfl
    | more begins => exact absurd begins not_begins_nil_text
  | more begins _ ih =>
    obtain ⟨c, cs, rfl, rfl⟩ := begins.eq_munch
    cases h' with
    | more begins' rest' =>
      cases begins_iff.1 begins'
      rw [ih rest']

theorem SplitsInto.flatMap_text (h : SplitsInto text ps) : ps.flatMap Piece.text = text := by
  induction h with
  | done => rfl
  | more begins _ ih =>
    obtain ⟨c, cs, rfl, rfl⟩ := begins.eq_munch
    rw [List.flatMap_cons, ih]
    exact (munch_splits c cs).1

/-- Each piece is the longest of some text. -/
theorem SplitsInto.eq_munch (h : SplitsInto text ps) : ∀ p ∈ ps, ∃ c cs, p = munch c cs := by
  induction h with
  | done => simp
  | more begins _ ih =>
    obtain ⟨c, cs, -, rfl⟩ := begins.eq_munch
    intro q mem
    rcases List.mem_cons.1 mem with rfl | mem
    · exact ⟨c, cs, rfl⟩
    · exact ih q mem

/-- No piece is the end of the input. -/
theorem SplitsInto.not_end (h : SplitsInto text ps) : ∀ p ∈ ps, p.form ≠ .token .endOfInput := by
  intro p mem
  obtain ⟨c, cs, rfl⟩ := h.eq_munch p mem
  exact munch_not_end c cs

/-- What is counted when a piece is taken are the line ends in it. -/
theorem SplitsInto.lineEnds (h : SplitsInto text ps) : ∀ p ∈ ps, p.lineEnds = newlines p.text := by
  intro p mem
  obtain ⟨c, cs, rfl⟩ := h.eq_munch p mem
  exact munch_lineEnds c cs

/-- The fuel lasts to the end of the text. -/
theorem splitsInto_lexFrom {fuel : Nat} (line : Nat) (enough : text.length ≤ fuel) :
    ∃ ps, SplitsInto text ps ∧ lexFrom fuel line text = itemsFrom line ps := by
  induction fuel generalizing line text with
  | zero =>
    have empty : text = [] := List.length_eq_zero_iff.1 (Nat.le_zero.1 enough)
    rw [empty]
    exact ⟨[], .done, rfl⟩
  | succ fuel ih =>
    cases text with
    | nil => exact ⟨[], .done, rfl⟩
    | cons c cs =>
      have shorter := munch_rest_length c cs
      have fits : (munch c cs).rest.length ≤ fuel := by
        simp only [List.length_cons] at enough
        omega
      obtain ⟨ps, splits, items⟩ := ih (line + newlines (munch c cs).text) fits
      refine ⟨munch c cs :: ps, .more (begins_iff.2 rfl) splits, ?_⟩
      simp only [lexFrom, munch_lineEnds, itemsFrom, Piece.item?, items]
      cases (munch c cs).form <;> rfl

theorem itemsFrom_ends (line : Nat) (others : ∀ p ∈ ps, p.form ≠ .token .endOfInput) :
    ∃ items, itemsFrom line ps =
        items ++ [.ok (.ending (line + newlines (ps.flatMap Piece.text)))] ∧
      ∀ t, .ok t ∈ items → t.isEnd = false := by
  induction ps generalizing line with
  | nil => exact ⟨[], rfl, by simp⟩
  | cons p ps ih =>
    obtain ⟨items, same, noEnd⟩ := ih (line + newlines p.text)
      (fun q mem => others q (List.mem_cons_of_mem p mem))
    have lines : line + newlines ((p :: ps).flatMap Piece.text) =
        line + newlines p.text + newlines (ps.flatMap Piece.text) := by
      simp [newlines, Nat.add_assoc]
    refine ⟨(p.item? (line + newlines p.text)).toList ++ items, ?_, ?_⟩
    · rw [itemsFrom, same, lines, List.append_assoc]
    · intro t mem
      rcases List.mem_append.1 mem with here | later
      · have noEnd := others p List.mem_cons_self
        unfold Piece.item? at here
        split at here
        · simp at here
        · next kind form =>
          simp only [Option.toList_some, List.mem_singleton, Except.ok.injEq] at here
          rw [here]
          cases kind <;> first | rfl | exact absurd form noEnd
        · simp at here
      · exact noEnd t later

/-- A piece is a slice of the text, behind the pieces before it. -/
theorem isSlice_of_split {source : String} {before after : List Piece} {p : Piece}
    (whole : textOf (before ++ p :: after) = source) :
    p.IsSlice source (textOf before).utf8ByteSize := by
  have parts : source = textOf before ++ p.lexeme ++ textOf after := by
    rw [← whole]
    simp [textOf, Piece.lexeme, String.append_assoc]
  have size : (textOf before ++ p.lexeme).utf8ByteSize =
      (textOf before).utf8ByteSize + p.lexeme.utf8ByteSize := String.utf8ByteSize_append
  constructor
  · apply String.Pos.Raw.isValid_iff_exists_append.2
    exact ⟨textOf before, p.lexeme ++ textOf after, by rw [parts, String.append_assoc], rfl⟩
  · apply String.Pos.Raw.isValid_iff_exists_append.2
    exact ⟨textOf before ++ p.lexeme, textOf after, parts, by rw [← size]; rfl⟩
  · have inside := ByteArray.extract_append_size_add'
      (b := (p.lexeme ++ textOf after).toByteArray) (i := 0) (j := p.lexeme.utf8ByteSize)
      (String.size_toByteArray (s := textOf before)).symm
    rw [parts, String.append_assoc, String.toByteArray_append]
    rw [Nat.add_zero] at inside
    rw [inside, String.toByteArray_append]
    exact ByteArray.extract_append_eq_left String.size_toByteArray.symm

end

end Lox.Lexer

namespace Lox

open Lexer

/-- **The items of a text are those of its longest pieces.** There is one way to split the text into
pieces each of which is the longest that the rest begins with, and the items are those of the pieces.
Together the pieces are the text, and each is a slice of it that begins and ends between characters.
One end comes last. -/
theorem lex_takes_longest (source : String) : ∃ pieces : List Piece,
    SplitsInto source.toList pieces ∧
    (∀ other, SplitsInto source.toList other → other = pieces) ∧
    lex source = itemsFrom 1 pieces ∧
    textOf pieces = source ∧
    (∀ before p after, pieces = before ++ p :: after →
      p.IsSlice source (textOf before).utf8ByteSize) ∧
    ∃ items, lex source = items ++ [.ok (.ending (1 + newlines source.toList))] ∧
      ∀ t, .ok t ∈ items → t.isEnd = false := by
  obtain ⟨pieces, splits, items⟩ := splitsInto_lexFrom 1 (Nat.le_refl source.toList.length)
  have whole : textOf pieces = source := by
    rw [textOf, splits.flatMap_text, String.ofList_toList]
  refine ⟨pieces, splits, fun _ => splits.unique, items, whole, ?_, ?_⟩
  · rintro before p after rfl
    exact isSlice_of_split whole
  · rw [← splits.flatMap_text]
    obtain ⟨front, same, noEnd⟩ := itemsFrom_ends 1 splits.not_end
    exact ⟨front, items.trans same, noEnd⟩

end Lox
