import Lox.Proofs.Token.Lines

/-!
# Two texts, one below the other

A piece of a text is the longest one also in front of a further line, unless it is a string that is
still open. So the pieces of two texts, the second one on the lines below the first, are those of the
first one, the line end between them, and those of the second one: whatever stands at the end of the
first text, a comment, a point behind a number or a stray character, nothing goes on behind the line
end. The items of the second text have later lines.
-/

namespace Lox

/-- The token or the error, some lines further down. -/
def itemBelow (k : Nat) : Except LexError Token → Except LexError Token
  | .ok t => .ok { t with line := t.line + k }
  | .error e => .error { e with line := e.line + k }

namespace Lexer

variable {text more : List Char} {ps qs : List Piece}

/-! ## Pieces -/

/-- No piece of the text is a string that is still open. -/
def AllClosed (ps : List Piece) : Prop := ∀ p ∈ ps, p.form ≠ .error .unclosedString

/-- The pieces of a text are pieces of the two texts together. -/
theorem SplitsInto.append_line (h : SplitsInto text ps) (closed : AllClosed ps)
    (below : SplitsInto ('\n' :: more) qs) :
    SplitsInto (text ++ '\n' :: more) (ps.map (·.before more) ++ qs) := by
  induction h with
  | done => exact below
  | @more _ p ps begins _ ih =>
    obtain ⟨c, cs, rfl, rfl⟩ := begins.eq_munch
    have same := munch_before more c cs (closed _ List.mem_cons_self)
    have begins' : Begins (c :: cs ++ '\n' :: more) ((munch c cs).before more) :=
      begins_iff.2 same.symm
    exact .more begins' (ih fun q mem => closed q (List.mem_cons_of_mem _ mem))

/-- The piece that a line end is. -/
def lineEnd (more : List Char) : Piece := ⟨.layout, ['\n'], more⟩

theorem SplitsInto.lineEnd (h : SplitsInto more qs) :
    SplitsInto ('\n' :: more) (lineEnd more :: qs) :=
  .more (begins_iff.2 rfl) h

/-! ## Items -/

theorem Piece.item?_before (p : Piece) (line : Nat) : (p.before more).item? line = p.item? line :=
  rfl

theorem itemsFrom_before (line : Nat) (ps : List Piece) :
    itemsFrom line (ps.map (·.before more)) = itemsFrom line ps := by
  induction ps generalizing line with
  | nil => rfl
  | cons p ps ih =>
    rw [List.map_cons, itemsFrom, itemsFrom, ih, p.item?_before]
    rfl

theorem itemsFrom_ne_nil (line : Nat) (ps : List Piece) : itemsFrom line ps ≠ [] := by
  rw [← List.length_pos_iff, length_itemsFrom]
  exact Nat.succ_pos _

/-- The items of pieces in two parts: the end of the first part is left out. -/
theorem itemsFrom_append (line : Nat) (ps qs : List Piece) :
    itemsFrom line (ps ++ qs) =
      (itemsFrom line ps).dropLast ++ itemsFrom (line + newlines (ps.flatMap Piece.text)) qs := by
  induction ps generalizing line with
  | nil => rfl
  | cons p ps ih =>
    have lines : line + newlines ((p :: ps).flatMap Piece.text) =
        line + newlines p.text + newlines (ps.flatMap Piece.text) := by
      simp [newlines, Nat.add_assoc]
    rw [List.cons_append, itemsFrom, itemsFrom, ih, lines,
      List.dropLast_append_of_ne_nil (itemsFrom_ne_nil _ _), List.append_assoc]

theorem Piece.item?_below (p : Piece) (line k : Nat) :
    p.item? (line + k) = (p.item? line).map (itemBelow k) := by
  unfold item?
  split <;> rfl

/-- The items of a text that begins further down. -/
theorem itemsFrom_below (line k : Nat) (ps : List Piece) :
    itemsFrom (line + k) ps = (itemsFrom line ps).map (itemBelow k) := by
  induction ps generalizing line with
  | nil => rfl
  | cons p ps ih =>
    have lines : line + k + newlines p.text = line + newlines p.text + k := Nat.add_right_comm _ _ _
    rw [itemsFrom, itemsFrom, lines, ih, p.item?_below, List.map_append, Option.toList_map]

/-- A string that is still open is among the errors. -/
theorem allClosed_of_errors {line : Nat}
    (closed : ∀ e ∈ errorsOf (itemsFrom line ps), e.cause ≠ .unclosedString) : AllClosed ps := by
  induction ps generalizing line with
  | nil => exact fun p none => absurd none List.not_mem_nil
  | cons p ps ih =>
    rw [itemsFrom, errorsOf, List.filterMap_append] at closed
    obtain ⟨here, later⟩ := List.forall_mem_append.1 closed
    intro q mem
    rcases List.mem_cons.1 mem with rfl | mem
    · intro isOpen
      rw [Piece.item?, isOpen] at here
      exact here _ List.mem_cons_self rfl
    · exact ih later q mem

end Lexer

open Lexer

/-- **Lexing goes line by line.** If no string is still open at the end of a text, and a second one
stands on the lines below it, then the items of both together are those of the first one without its
end, errors included, and those of the second one, each further down by the lines of the first. -/
theorem lex_joins_lines (a b : String)
    (closed : ∀ e ∈ errorsOf (lex a), e.cause ≠ .unclosedString) :
    ∃ items, lex a = items ++ [.ok (.ending (1 + newlines a.toList))] ∧
      (∀ t, .ok t ∈ items → t.isEnd = false) ∧
      lex (a ++ "\n" ++ b) = items ++ (lex b).map (itemBelow (1 + newlines a.toList)) := by
  obtain ⟨ps, splits, items⟩ := splitsInto_lexFrom 1 (Nat.le_refl a.toList.length)
  obtain ⟨qs, splits', items'⟩ := splitsInto_lexFrom 1 (Nat.le_refl b.toList.length)
  have items : lex a = itemsFrom 1 ps := items
  have items' : lex b = itemsFrom 1 qs := items'
  obtain ⟨front, ends, noEnd⟩ := itemsFrom_ends 1 splits.not_end
  rw [splits.flatMap_text] at ends
  refine ⟨front, items.trans ends, noEnd, ?_⟩
  rw [items] at closed
  have joined := splits.append_line (allClosed_of_errors closed) splits'.lineEnd
  have whole : (a ++ "\n" ++ b).toList = a.toList ++ '\n' :: b.toList := by simp
  obtain ⟨pieces, all, lexes⟩ := splitsInto_lexFrom 1 (Nat.le_refl (a ++ "\n" ++ b).toList.length)
  rw [whole] at all
  cases joined.unique all
  calc
    lex (a ++ "\n" ++ b)
      = itemsFrom 1 (ps.map (·.before b.toList) ++ lineEnd b.toList :: qs) := lexes
    _ = front ++ itemsFrom (1 + newlines a.toList) (lineEnd b.toList :: qs) := by
      have texts : (ps.map (·.before b.toList)).flatMap Piece.text = a.toList := by
        rw [List.flatMap_map]
        exact splits.flatMap_text
      rw [itemsFrom_append, itemsFrom_before, texts, ends, List.dropLast_concat]
    _ = front ++ itemsFrom (1 + (1 + newlines a.toList)) qs := by
      rw [Nat.add_comm 1 (1 + newlines a.toList)]
      rfl
    _ = front ++ (lex b).map (itemBelow (1 + newlines a.toList)) := by
      rw [itemsFrom_below, items']

/-- A point behind a number, a stray character and a comment, and below them a string over two
lines. -/
theorem lex_joins_lines_seam :
    let a := "1. @ // \"x"
    let b := "2\"\n\" >= ="
    (∀ e ∈ errorsOf (lex a), e.cause ≠ .unclosedString) ∧
      (∃ items, lex a = items ++ [.ok (.ending (1 + newlines a.toList))] ∧
        (∀ t, .ok t ∈ items → t.isEnd = false) ∧
        lex (a ++ "\n" ++ b) = items ++ (lex b).map (itemBelow (1 + newlines a.toList))) ∧
      (lex (a ++ "\n" ++ b)).map itemLine = [1, 1, 1, 2, 3, 3, 3, 3] := by
  have errors : errorsOf (lex "1. @ // \"x") = [⟨.stray '@', 1⟩] := rfl
  have closed : ∀ e ∈ errorsOf (lex "1. @ // \"x"), e.cause ≠ .unclosedString := by
    rw [errors]
    decide
  exact ⟨closed, lex_joins_lines _ _ closed, rfl⟩

end Lox
