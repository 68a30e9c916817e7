/-!
# Prefix notation

An expression in prefix notation is a word, or a list of expressions in parentheses with blanks
between them. Its text determines it (`Sexp.render_unique`): parentheses and blanks are in no word,
so a word ends where one of them stands, and a list where its own parenthesis closes it.
-/

namespace Lox

/-- An expression in prefix notation. -/
inductive Sexp where
  | word (text : String)
  | list (items : List Sexp)

namespace Sexp

/-- The character may stand in a word. -/
def inWord (c : Char) : Bool := c != ' ' && c != '(' && c != ')'

mutual

def render : Sexp → List Char
  | .word text => text.toList
  | .list [] => ['(', ')']
  | .list (x :: xs) => '(' :: (x.render ++ (renderMore xs ++ [')']))

/-- The expressions with a blank before each. -/
def renderMore : List Sexp → List Char
  | [] => []
  | x :: xs => ' ' :: (x.render ++ renderMore xs)

end

/-- The text is that of a word. -/
structure IsWord (text : String) : Prop where
  some : text.toList ≠ []
  parts : ∀ c ∈ text.toList, inWord c = true

theorem isWord_iff {text : String} :
    IsWord text ↔ text.toList ≠ [] ∧ ∀ c ∈ text.toList, inWord c = true :=
  ⟨fun h => ⟨h.some, h.parts⟩, fun h => ⟨h.1, h.2⟩⟩

mutual

/-- All words of the expression are such. -/
def Proper : Sexp → Prop
  | .word text => IsWord text
  | .list items => ProperAll items

def ProperAll : List Sexp → Prop
  | [] => True
  | x :: xs => x.Proper ∧ ProperAll xs

end

/-- No word goes on into the text. -/
def Ends (rest : List Char) : Prop := ∀ c ∈ rest.head?, inWord c = false

variable {rest rest' : List Char} {text text' : String} {x : Sexp} {xs : List Sexp}

theorem ends_close (rest : List Char) : Ends (')' :: rest) := by
  rintro c ⟨⟩
  rfl

theorem ends_more (xs : List Sexp) (rest : List Char) :
    Ends (renderMore xs ++ ')' :: rest) := by
  cases xs with
  | nil => exact ends_close rest
  | cons x xs =>
    rintro c ⟨⟩
    rfl

/-- A word goes on up to what ends it. -/
theorem takeWhile_word (word : IsWord text) (ends : Ends rest) :
    (text.toList ++ rest).takeWhile inWord = text.toList := by
  rw [List.takeWhile_append_of_pos word.parts]
  cases rest with
  | nil => rw [List.takeWhile_nil, List.append_nil]
  | cons c cs =>
    rw [List.takeWhile_cons_of_neg (Bool.eq_false_iff.1 (ends c rfl)), List.append_nil]

theorem word_unique (word : IsWord text) (word' : IsWord text') (ends : Ends rest)
    (ends' : Ends rest') (same : text.toList ++ rest = text'.toList ++ rest') :
    text = text' ∧ rest = rest' := by
  have texts : text.toList = text'.toList := by
    rw [← takeWhile_word word ends, same, takeWhile_word word' ends']
  rw [texts] at same
  exact ⟨String.toList_injective texts, List.append_cancel_left same⟩

theorem head_parts (word : IsWord text) {c : Char} {cs : List Char}
    (begins : text.toList ++ rest = c :: cs) : inWord c = true := by
  obtain ⟨c', cs', spelled⟩ := List.exists_cons_of_ne_nil word.some
  rw [spelled, List.cons_append] at begins
  rw [← (List.cons.inj begins).1]
  exact word.parts c' (spelled ▸ List.mem_cons_self)

/-- No word begins as a list does. -/
theorem word_ne_list (word : IsWord text) : text.toList ++ rest ≠ (list xs).render ++ rest' := by
  intro same
  have opens : ∃ cs, (list xs).render ++ rest' = '(' :: cs := by cases xs <;> exact ⟨_, rfl⟩
  obtain ⟨cs, opens⟩ := opens
  cases head_parts word (same.trans opens)

/-- Nothing begins with a parenthesis that closes. -/
theorem render_ne_close (h : x.Proper) : x.render ++ rest ≠ ')' :: rest' := by
  intro same
  match x with
  | .word text => cases head_parts h same
  | .list [] | .list (_ :: _) => cases same

mutual

/-- **An expression in prefix notation is readable in one way.** -/
theorem render_unique : ∀ {x y : Sexp} {rest rest' : List Char}, x.Proper → y.Proper →
    Ends rest → Ends rest' → x.render ++ rest = y.render ++ rest' → x = y ∧ rest = rest'
  | .word _, .word _, _, _, hx, hy, ends, ends', same => by
    obtain ⟨texts, rests⟩ := word_unique hx hy ends ends' same
    exact ⟨congrArg _ texts, rests⟩
  | .word _, .list _, _, _, hx, _, _, _, same => (word_ne_list hx same).elim
  | .list _, .word _, _, _, _, hy, _, _, same => (word_ne_list hy same.symm).elim
  | .list [], .list [], _, _, _, _, _, _, same => ⟨rfl, (List.cons.inj (List.cons.inj same).2).2⟩
  | .list [], .list (y :: ys), rest, rest', _, hy, _, _, same => by
    simp only [render, List.cons_append, List.append_assoc] at same
    exact (render_ne_close hy.1 (List.cons.inj same).2.symm).elim
  | .list (x :: xs), .list [], rest, rest', hx, _, _, _, same => by
    simp only [render, List.cons_append, List.append_assoc] at same
    exact (render_ne_close hx.1 (List.cons.inj same).2).elim
  | .list (x :: xs), .list (y :: ys), rest, rest', hx, hy, _, _, same => by
    simp only [render, List.cons_append, List.append_assoc, List.nil_append] at same
    obtain ⟨rfl, behind⟩ :=
      render_unique hx.1 hy.1 (ends_more xs rest) (ends_more ys rest') (List.cons.inj same).2
    obtain ⟨rfl, rests⟩ := renderMore_unique hx.2 hy.2 behind
    exact ⟨rfl, rests⟩

theorem renderMore_unique : ∀ {xs ys : List Sexp} {rest rest' : List Char}, ProperAll xs →
    ProperAll ys → renderMore xs ++ ')' :: rest = renderMore ys ++ ')' :: rest' →
    xs = ys ∧ rest = rest'
  | [], [], _, _, _, _, same => ⟨rfl, (List.cons.inj same).2⟩
  | [], _ :: _, _, _, _, _, same | _ :: _, [], _, _, _, _, same => by cases same
  | x :: xs, y :: ys, rest, rest', hx, hy, same => by
    simp only [renderMore, List.cons_append, List.append_assoc] at same
    obtain ⟨rfl, behind⟩ :=
      render_unique hx.1 hy.1 (ends_more xs rest) (ends_more ys rest') (List.cons.inj same).2
    obtain ⟨rfl, rests⟩ := renderMore_unique hx.2 hy.2 behind
    exact ⟨rfl, rests⟩

end

/-- Proper expressions with the same text are the same. -/
theorem render_injective {x y : Sexp} (hx : x.Proper) (hy : y.Proper)
    (same : x.render = y.render) : x = y := by
  have ends : Ends [] := nofun
  refine (render_unique hx hy ends ends ?_).1
  rw [same]

/-- What is read from two expressions with the same text is the same. -/
theorem read_unique {α : Type} {read : Sexp → Option α} {x y : Sexp} {a b : α} (hx : x.Proper)
    (hy : y.Proper) (same : x.render = y.render) (ha : read x = some a) (hb : read y = some b) :
    a = b := by
  obtain rfl := render_injective hx hy same
  exact Option.some.inj (ha.symm.trans hb)

end Sexp

end Lox
