import Lox.Proofs.Token.Pieces

/-!
# The lines of the items

An item has the line on which it ends: one more than the line ends up to there. A token ends where its
lexeme does, a stray character behind itself, and a string that is never closed at the end of the
text, where the end of the input is too. A line end is counted once, whether it stands between tokens,
behind a comment or inside of a string (`SplitsInto.lineEnds`).

`ItemEnds` says where an item ends, and does not speak of lines. Each item of a text ends somewhere
(`itemsFrom_ends_at`), each piece but layout gives one (`itemsFrom_getElem?`), and an item further
behind has no smaller line (`itemsFrom_pairwise`).
-/

namespace Lox

/-- The line that a token or an error has. -/
def itemLine : Except LexError Token → Nat
  | .ok t => t.line
  | .error e => e.line

namespace Lexer

/-- The piece is a token or an error. -/
def Piece.counts (p : Piece) : Bool :=
  match p.form with
  | .layout => false
  | .token _ | .error _ => true

/-- How many items the pieces give. -/
def itemCount (ps : List Piece) : Nat := ps.countP Piece.counts

/-- The text up to the end of the piece that is behind the others. -/
def upTo (before : List Piece) (p : Piece) : List Char := before.flatMap Piece.text ++ p.text

/-- The item with this number ends where the front of the text does. The text is split into the
pieces. -/
inductive ItemEnds (text : List Char) (ps : List Piece) :
    Nat → Except LexError Token → List Char → Prop
  | token {before after : List Piece} {p : Piece} (t : Token) : ps = before ++ p :: after →
    p.form = .token t.kind → p.lexeme = t.lexeme →
    ItemEnds text ps (itemCount before) (.ok t) (upTo before p)
  | stray {before after : List Piece} {p : Piece} (c : Char) (line : Nat) :
    ps = before ++ p :: after → p.form = .error (.stray c) →
    ItemEnds text ps (itemCount before) (.error ⟨.stray c, line⟩) (before.flatMap Piece.text ++ [c])
  | unclosed {before : List Piece} {p : Piece} (line : Nat) :
    ps = before ++ [p] → p.form = .error .unclosedString →
    ItemEnds text ps (itemCount before) (.error ⟨.unclosedString, line⟩) text
  | ending (line : Nat) : ItemEnds text ps (itemCount ps) (.ok (.ending line)) text

/-! ## Line feeds among the bytes -/

/-- The bytes of a character hold one line feed if it is a line end, and else none. -/
theorem count_utf8EncodeChar (c : Char) :
    (String.utf8EncodeChar c).count 10 = if c = '\n' then 1 else 0 := by
  have isLine : c = '\n' ↔ c.val.toNat = 10 := by
    constructor
    · rintro rfl
      rfl
    · intro same
      exact Char.ext (UInt32.toNat_inj.1 same)
  have isTen (n : Nat) (small : n < 256) : UInt8.ofNat n = 10 ↔ n = 10 := by
    rw [← UInt8.toNat_inj, UInt8.toNat_ofNat_of_lt' small]
    rfl
  rw [String.utf8EncodeChar.eq_1]
  simp only [isLine]
  by_cases ascii : c.val.toNat ≤ 127
  · simp (disch := omega) only [ascii, if_true, List.count_cons, List.count_nil, beq_iff_eq, isTen,
      Nat.zero_add]
  · -- Each byte of a longer code has its highest bit set.
    have high (n : Nat) (set : 128 ≤ n) (small : n < 256) : 10 ≠ UInt8.ofNat n := by
      intro same
      have ten := (isTen n small).1 same.symm
      omega
    have notLine : ¬ c.val.toNat = 10 := by omega
    rw [if_neg ascii, if_neg notLine, List.count_eq_zero]
    split
    · simp (disch := omega) only [List.mem_cons, List.not_mem_nil, high, or_self, not_false_eq_true]
    · split
      all_goals
        simp (disch := omega) only [List.mem_cons, List.not_mem_nil, high, or_self,
          not_false_eq_true]

/-- The line ends of a text are the line feeds among its bytes. -/
theorem count_toByteArray (text : List Char) :
    (String.ofList text).toByteArray.data.toList.count 10 = newlines text := by
  rw [String.toByteArray_ofList, List.utf8Encode, List.data_toByteArray, List.toList_toArray]
  induction text with
  | nil => rfl
  | cons c cs ih =>
    rw [List.flatMap_cons, List.count_append, count_utf8EncodeChar, ih, newlines, newlines,
      List.count_cons, Nat.add_comm]
    simp

/-- A front of a text is the front of its bytes. -/
theorem newlines_eq_count {source : String} {front : List Char} (h : front <+: source.toList) :
    newlines front =
      (source.toByteArray.extract 0 (String.ofList front).utf8ByteSize).data.toList.count 10 := by
  obtain ⟨back, whole⟩ := h
  have parts : source = String.ofList front ++ String.ofList back := by
    rw [← String.ofList_append, whole, String.ofList_toList]
  rw [parts, String.toByteArray_append, ByteArray.extract_append_eq_left String.size_toByteArray.symm,
    count_toByteArray]

/-! ## Pieces that are errors -/

section

variable {text : List Char} {p : Piece} {ps before after : List Piece}

theorem Begins.text_of_stray {c : Char} (h : Begins text p) (form : p.form = .error (.stray c)) :
    p.text = [c] := by
  cases h with
  | longest fits _ =>
    rw [form] at fits
    cases fits
  | stray =>
    cases form
    rfl
  | unclosed => cases form

theorem Begins.of_unclosed (h : Begins text p) (form : p.form = .error .unclosedString) :
    p.text = text ∧ p.rest = [] := by
  cases h with
  | longest fits _ =>
    rw [form] at fits
    cases fits
  | stray => cases form
  | unclosed => exact ⟨rfl, rfl⟩

/-- A piece begins what stands behind the pieces before it. -/
theorem SplitsInto.of_append (h : SplitsInto text (before ++ p :: after)) :
    ∃ rest, Begins rest p ∧ SplitsInto p.rest after := by
  induction before generalizing text with
  | nil =>
    cases h with
    | more begins rest => exact ⟨text, begins, rest⟩
  | cons q before ih =>
    cases h with
    | more _ rest => exact ih rest

theorem SplitsInto.upTo_isPrefix (h : SplitsInto text ps) (split : ps = before ++ p :: after) :
    upTo before p <+: text := by
  refine ⟨after.flatMap Piece.text, ?_⟩
  rw [← h.flatMap_text, split, upTo]
  simp

/-! ## Items and their pieces -/

theorem Piece.item?_isSome (p : Piece) (line : Nat) : (p.item? line).isSome = p.counts := by
  unfold item? counts
  cases p.form <;> rfl

theorem Piece.length_item? (p : Piece) (line : Nat) :
    (p.item? line).toList.length = p.counts.toNat := by
  rw [← p.item?_isSome line]
  cases p.item? line <;> rfl

theorem Piece.itemLine_of_item? {line : Nat} {item : Except LexError Token}
    (h : p.item? line = some item) : itemLine item = line := by
  unfold item? at h
  split at h <;> cases h <;> rfl

theorem itemCount_cons (p : Piece) (ps : List Piece) :
    itemCount (p :: ps) = p.counts.toNat + itemCount ps := by
  rw [itemCount, itemCount, List.countP_cons, Nat.add_comm]
  cases p.counts <;> rfl

theorem length_itemsFrom (line : Nat) (ps : List Piece) :
    (itemsFrom line ps).length = itemCount ps + 1 := by
  induction ps generalizing line with
  | nil => rfl
  | cons p ps ih =>
    rw [itemsFrom, List.length_append, p.length_item?, ih, itemCount_cons, Nat.add_assoc]

/-- A piece that is no layout gives the item behind those of the pieces before it. -/
theorem itemsFrom_getElem? (line : Nat) (before after : List Piece) {p : Piece}
    (counts : p.counts = true) :
    (itemsFrom line (before ++ p :: after))[itemCount before]? =
      p.item? (line + newlines (upTo before p)) := by
  induction before generalizing line with
  | nil =>
    rw [← p.item?_isSome (line + newlines p.text), Option.isSome_iff_exists] at counts
    obtain ⟨item, gives⟩ := counts
    have here : itemsFrom line ([] ++ p :: after) =
        item :: itemsFrom (line + newlines p.text) after := by
      rw [List.nil_append, itemsFrom, gives]
      rfl
    rw [here]
    exact gives.symm
  | cons q before ih =>
    have behind : newlines (upTo (q :: before) p) = newlines q.text + newlines (upTo before p) := by
      simp [upTo, newlines]
    rw [List.cons_append, itemsFrom, List.getElem?_append_right, itemCount_cons, q.length_item?,
      Nat.add_sub_cancel_left, ih, behind, Nat.add_assoc]
    rw [q.length_item?, itemCount_cons]
    exact Nat.le_add_right _ _

theorem itemsFrom_getElem?_last (line : Nat) (ps : List Piece) :
    (itemsFrom line ps)[itemCount ps]? =
      some (.ok (.ending (line + newlines (ps.flatMap Piece.text)))) := by
  induction ps generalizing line with
  | nil => rfl
  | cons p ps ih =>
    have lines : newlines ((p :: ps).flatMap Piece.text) =
        newlines p.text + newlines (ps.flatMap Piece.text) := by
      simp [newlines]
    rw [itemsFrom, List.getElem?_append_right, itemCount_cons, p.length_item?,
      Nat.add_sub_cancel_left, ih, lines, Nat.add_assoc]
    rw [p.length_item?, itemCount_cons]
    exact Nat.le_add_right _ _

/-- There is a piece for each number but the last. -/
theorem exists_piece {i : Nat} (h : i < itemCount ps) :
    ∃ before p after, ps = before ++ p :: after ∧ p.counts = true ∧ itemCount before = i := by
  induction ps generalizing i with
  | nil => exact absurd h (Nat.not_lt_zero i)
  | cons q ps ih =>
    rw [itemCount_cons] at h
    by_cases first : i < q.counts.toNat
    · cases counts : q.counts with
      | false =>
        rw [counts] at first
        exact absurd first (Nat.not_lt_zero i)
      | true =>
        rw [counts] at first
        have zero : i = 0 := Nat.lt_one_iff.1 first
        exact ⟨[], q, ps, rfl, counts, zero.symm⟩
    · obtain ⟨before, p, after, rfl, counts, number⟩ := ih (i := i - q.counts.toNat) (by omega)
      refine ⟨q :: before, p, after, rfl, counts, ?_⟩
      rw [itemCount_cons, number]
      omega

/-- What a piece gives ends where it should. -/
theorem SplitsInto.itemEnds (h : SplitsInto text ps) (split : ps = before ++ p :: after) {line : Nat}
    {item : Except LexError Token} (gives : p.item? line = some item) :
    ItemEnds text ps (itemCount before) item (upTo before p) := by
  obtain ⟨rest, begins, behind⟩ := (split ▸ h).of_append
  unfold Piece.item? at gives
  split at gives
  · cases gives
  · next kind form =>
    cases gives
    exact .token _ split form rfl
  · next cause form =>
    cases gives
    cases cause with
    | stray c =>
      have alone := begins.text_of_stray form
      rw [upTo, alone]
      exact .stray c line split form
    | unclosedString =>
      have last : after = [] := by
        rw [(begins.of_unclosed form).2] at behind
        cases behind with
        | done => rfl
        | more begins => exact absurd begins not_begins_nil_text
      subst last
      have whole : upTo before p = text := by
        rw [← h.flatMap_text, split, upTo]
        simp
      rw [whole]
      exact .unclosed line split form

/-- Each item ends somewhere in the text, and has the line of this place. -/
theorem itemsFrom_ends_at (h : SplitsInto text ps) {line i : Nat} {item : Except LexError Token}
    (found : (itemsFrom line ps)[i]? = some item) :
    ∃ front, ItemEnds text ps i item front ∧ front <+: text ∧
      itemLine item = line + newlines front := by
  have bound := (List.getElem?_eq_some_iff.1 found).1
  rw [length_itemsFrom] at bound
  by_cases last : i = itemCount ps
  · subst last
    rw [itemsFrom_getElem?_last, h.flatMap_text] at found
    cases found
    exact ⟨text, .ending _, List.prefix_rfl, rfl⟩
  · have lt : i < itemCount ps := Nat.lt_of_le_of_ne (Nat.lt_succ_iff.1 bound) last
    obtain ⟨before, p, after, split, counts, rfl⟩ := exists_piece lt
    rw [split, itemsFrom_getElem? line before after counts] at found
    exact ⟨upTo before p, h.itemEnds split found, h.upTo_isPrefix split,
      Piece.itemLine_of_item? found⟩

theorem itemsFrom_line_le (line : Nat) (ps : List Piece) :
    ∀ item ∈ itemsFrom line ps, line ≤ itemLine item := by
  induction ps generalizing line with
  | nil => simp [itemsFrom, itemLine, Token.ending]
  | cons p ps ih =>
    intro item mem
    rcases List.mem_append.1 mem with here | later
    · have gives : p.item? (line + newlines p.text) = some item := by simpa using here
      rw [Piece.itemLine_of_item? gives]
      exact Nat.le_add_right _ _
    · exact Nat.le_trans (Nat.le_add_right _ _) (ih _ item later)

theorem itemsFrom_pairwise (line : Nat) (ps : List Piece) :
    (itemsFrom line ps).Pairwise (itemLine · ≤ itemLine ·) := by
  induction ps generalizing line with
  | nil => exact List.pairwise_singleton _ _
  | cons p ps ih =>
    rw [itemsFrom, List.pairwise_append]
    refine ⟨?_, ih _, ?_⟩
    · cases p.item? (line + newlines p.text) with
      | none => exact List.Pairwise.nil
      | some item => exact List.pairwise_singleton _ _
    · intro item here other later
      have gives : p.item? (line + newlines p.text) = some item := by simpa using here
      rw [Piece.itemLine_of_item? gives]
      exact itemsFrom_line_le _ ps other later

end

end Lexer

open Lexer

/-- **An item has the line on which it ends.** When a piece is taken, what is counted are the line ends
in it: one for a line end outside of strings, those inside of a string, and none for a comment or
another token. So each item that a text gives ends behind a front of the text, and its line is one more
than the line ends in there, whatever they stand in; these are the line feeds among the bytes up to the
end of the item. Each piece of the text that is no layout has its item, and one more stands for the end
of the text. From one item to the next no line gets smaller. -/
theorem lex_lines (source : String) : ∃ pieces : List Piece,
    SplitsInto source.toList pieces ∧
    (∀ p ∈ pieces, p.lineEnds = newlines p.text) ∧
    (∀ i item, (lex source)[i]? = some item → ∃ front,
      ItemEnds source.toList pieces i item front ∧ front <+: source.toList ∧
      itemLine item = 1 + newlines front ∧
      newlines front =
        (source.toByteArray.extract 0 (String.ofList front).utf8ByteSize).data.toList.count 10) ∧
    (∀ before p after, pieces = before ++ p :: after → p.form ≠ .layout → ∃ item,
      (lex source)[itemCount before]? = some item ∧
      ItemEnds source.toList pieces (itemCount before) item (upTo before p)) ∧
    (lex source)[itemCount pieces]? = some (.ok (.ending (1 + newlines source.toList))) ∧
    (lex source).length = itemCount pieces + 1 ∧
    (lex source).Pairwise (itemLine · ≤ itemLine ·) := by
  obtain ⟨pieces, splits, items⟩ := splitsInto_lexFrom 1 (Nat.le_refl source.toList.length)
  have items : lex source = itemsFrom 1 pieces := items
  refine ⟨pieces, splits, splits.lineEnds, ?_, ?_, ?_, ?_, ?_⟩
  · intro i item found
    rw [items] at found
    obtain ⟨front, ends, part, line⟩ := itemsFrom_ends_at splits found
    exact ⟨front, ends, part, line, newlines_eq_count part⟩
  · intro before p after split notLayout
    have counts : p.counts = true := by
      unfold Piece.counts
      split
      · next form => exact absurd form notLayout
      all_goals rfl
    have found := itemsFrom_getElem? 1 before after counts
    rw [← p.item?_isSome (1 + newlines (upTo before p)), Option.isSome_iff_exists] at counts
    obtain ⟨item, gives⟩ := counts
    refine ⟨item, ?_, splits.itemEnds split gives⟩
    rw [items, split, found, gives]
  · rw [items, itemsFrom_getElem?_last, splits.flatMap_text]
  · rw [items, length_itemsFrom]
  · rw [items]
    exact itemsFrom_pairwise 1 pieces

end Lox
