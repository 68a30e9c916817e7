import Lox.Proofs.Parser.Progress

/-!
# A missing end

All that a parse does to its state are `ParseState.Steps`: it takes the next token, records an
error, or numbers a reference. So a parse walks a `Cursor` through its tokens, which does not go
beyond the last one. It sees the token at the cursor and the one in front of it, and reads none of
them where there is none.

A list that lacks its end is read as if it stood there. Both parses have their cursors at the same
place all along, and see the same tokens there.
-/

namespace Lox

variable {tokens : List Token}

/-! ## Cursors -/

/-- A place in a list of tokens: in front of one of them, or behind the last. -/
structure Cursor (tokens : List Token) where
  index : Nat
  within : index ≤ tokens.length

namespace Cursor

/-- In front of all tokens. -/
def first : Cursor tokens := ⟨0, Nat.zero_le _⟩

/-- The token at the cursor. Behind the last one there is none to read. -/
def next (c : Cursor tokens) : Token :=
  if inside : c.index < tokens.length then tokens[c.index] else Token.missingEnd

/-- The token in front of the cursor. In front of all tokens there is none to read. -/
def previous : Cursor tokens → Token
  | ⟨0, _⟩ => Token.missingEnd
  | ⟨index + 1, within⟩ => tokens.get ⟨index, within⟩

theorem lt_of_next {c : Cursor tokens} (notEnd : ¬ c.next.isEnd = true) :
    c.index < tokens.length := by
  apply Classical.byContradiction
  intro behind
  rw [next, dif_neg behind] at notEnd
  exact notEnd rfl

/-- The place behind the token at the cursor, unless that is the end. -/
def advance (c : Cursor tokens) : Cursor tokens :=
  if isEnd : c.next.isEnd = true then c else ⟨c.index + 1, lt_of_next isEnd⟩

/-- The state of a parse at this place. -/
def state (c : Cursor tokens) (errors : Array SyntaxError) (nextRef : RefId) : ParseState :=
  ⟨tokens.drop c.index, c.previous, errors, nextRef⟩

variable (c : Cursor tokens) (errors : Array SyntaxError) (nextRef : RefId)

theorem rest_inside (inside : c.index < tokens.length) :
    (c.state errors nextRef).rest = tokens[c.index] :: tokens.drop (c.index + 1) :=
  List.drop_eq_getElem_cons inside

theorem rest_behind (behind : ¬ c.index < tokens.length) : (c.state errors nextRef).rest = [] :=
  List.drop_eq_nil_of_le (Nat.le_of_not_lt behind)

/-- What a parse sees next is the token at its cursor. -/
theorem peek_state : (c.state errors nextRef).peek = c.next := by
  unfold next
  split
  · next inside => rw [ParseState.peek, rest_inside c errors nextRef inside, List.headD_cons]
  · next behind => rw [ParseState.peek, rest_behind c errors nextRef behind, List.headD_nil]

/-- A parse that takes a token has its cursor behind it. -/
theorem advance_state : (c.state errors nextRef).advance = c.advance.state errors nextRef := by
  unfold advance
  split
  · next isEnd =>
    rw [← peek_state c errors nextRef] at isEnd
    exact ParseState.advance_of_atEnd isEnd
  · next notEnd =>
    have inside := lt_of_next notEnd
    rw [next, dif_pos inside, Bool.not_eq_true] at notEnd
    exact ParseState.advance_of_rest (rest_inside c errors nextRef inside) notEnd

/-! ## The end supplied -/

/-- The same place in the list that has an end behind it. -/
def supplied : Cursor (tokens ++ [Token.missingEnd]) :=
  ⟨c.index, Nat.le_trans c.within (List.length_append ▸ Nat.le_add_right _ _)⟩

theorem next_supplied : c.supplied.next = c.next := by
  have inside : c.supplied.index < (tokens ++ [Token.missingEnd]).length := by
    rw [List.length_append]
    exact Nat.lt_succ_of_le c.within
  rw [next, dif_pos inside, next]
  split
  · next before => exact List.getElem_append_left before
  · next behind =>
    exact List.getElem_concat_length (Nat.le_antisymm c.within (Nat.le_of_not_lt behind)) inside

/-- The end that is supplied is not taken. -/
theorem advance_supplied : c.supplied.advance = c.advance.supplied := by
  simp only [advance, next_supplied]
  split <;> rfl

end Cursor

/-! ## Steps -/

namespace ParseState

/-- What a parse does to its state: it takes tokens, records errors and numbers references. -/
inductive Steps : ParseState → ParseState → Prop
  | none {s : ParseState} : Steps s s
  | advance {s s' : ParseState} : Steps s s' → Steps s s'.advance
  | record {s s' : ParseState} (e : SyntaxError) : Steps s s' → Steps s (s'.record e)
  | fresh {s s' : ParseState} : Steps s s' → Steps s { s' with nextRef := s'.nextRef + 1 }

/-- A parse has its cursor in the list of its tokens all along. -/
theorem Steps.cursor {s s' : ParseState} (steps : s.Steps s') {c : Cursor tokens}
    (begins : s = c.state s.errors s.nextRef) :
    ∃ c' : Cursor tokens, s' = c'.state s'.errors s'.nextRef := by
  induction steps with
  | none => exact ⟨c, begins⟩
  | advance _ ih =>
    obtain ⟨c', isState⟩ := ih
    refine ⟨c'.advance, ?_⟩
    rw [isState, Cursor.advance_state]
    rfl
  | record e _ ih | fresh _ ih =>
    obtain ⟨c', isState⟩ := ih
    refine ⟨c', ?_⟩
    rw [isState]
    rfl

end ParseState

/-- Both parses are in a state that has come from `s₀` by steps. -/
def Pairing.stepping (s₀ : ParseState) : Pairing where
  related s t := s = t ∧ s₀.Steps t
  number id := id
  semicolons := True
  peek h := congrArg ParseState.peek h.1
  advance h _ _ := ⟨congrArg ParseState.advance h.1, .advance h.2⟩
  record h e := ⟨congrArg (·.record e) h.1, .record e h.2⟩
  nextRef h := congrArg ParseState.nextRef h.1
  fresh h := ⟨h.1 ▸ rfl, .fresh h.2⟩

/-- Both parses have their cursors at the same place, the first one in the list with the end. -/
def Pairing.supplied (tokens : List Token) : Pairing where
  related s t := ∃ (c : Cursor tokens) (errors : Array SyntaxError) (nextRef : RefId),
    s = c.supplied.state errors nextRef ∧ t = c.state errors nextRef
  number id := id
  semicolons := True
  peek := by
    rintro _ _ ⟨c, errors, nextRef, rfl, rfl⟩
    rw [Cursor.peek_state, Cursor.peek_state, Cursor.next_supplied]
  advance := by
    rintro _ _ ⟨c, errors, nextRef, rfl, rfl⟩ - -
    refine ⟨c.advance, errors, nextRef, ?_, c.advance_state errors nextRef⟩
    rw [Cursor.advance_state, Cursor.advance_supplied]
  record := by
    rintro _ _ ⟨c, errors, nextRef, rfl, rfl⟩ e
    exact ⟨c, errors.push e, nextRef, rfl, rfl⟩
  nextRef := by
    rintro _ _ ⟨c, errors, nextRef, rfl, rfl⟩
    rfl
  fresh := by
    rintro _ _ ⟨c, errors, nextRef, rfl, rfl⟩
    exact ⟨c, errors, nextRef + 1, rfl, rfl⟩

namespace Parser

open Pairing

/-! ## What the rules do -/

/-- The rule leads from `s` to where it ends by steps, also if an error stops it. -/
def TakesSteps {α : Type} (p : Parser α) (s : ParseState) : Prop :=
  match p s with
  | .ok _ s' | .error _ s' => s.Steps s'

/-- All rules of a parse lead from `s` to where they end by steps. A declaration begins before the
end. -/
structure Rules.TakeSteps (r : Rules) (s : ParseState) : Prop where
  expression : TakesSteps r.expression s
  unary : TakesSteps r.unary s
  statement : TakesSteps r.statement s
  declaration : s.atEnd = false → TakesSteps r.declaration s
  program : ∀ k, s.rest.length < k → TakesSteps (programItems r k []) s
  whole : TakesSteps (wholeExpression r) s

section

variable {α : Type} {n m : Nat} {s : ParseState} {p : Parser α} {φ : α → α}
  {fit : ParseState → Prop}

theorem takesSteps_of_alike (h : (stepping s).AlikeWhere fit m p p φ) (fits : fit s) :
    TakesSteps p s := by
  have ends := h s s ⟨rfl, .none⟩ fits
  unfold TakesSteps
  revert ends
  generalize p s = x
  intro ends
  cases ends with
  | ok _ related => exact related.2
  | error related => exact related.2

theorem rules_stepping (s : ParseState) (n : Nat) :
    (stepping s).RulesAlike n (rules n) (rules n) := by
  rw [rules_eq]
  exact rulesAbove_alike trivial (Nat.le_refl n) (Nat.le_refl n)

/-- All that the rules of a parse do are steps. -/
theorem rules_takeSteps (few : s.rest.length < n) : Rules.TakeSteps (rules n) s where
  expression := takesSteps_of_alike ((rules_stepping s n).expression _ few) (Nat.lt_succ_self _)
  unary := takesSteps_of_alike ((rules_stepping s n).unary _ few) (Nat.lt_succ_self _)
  statement := takesSteps_of_alike ((rules_stepping s n).statement _ few) (Nat.lt_succ_self _)
  declaration notEnd :=
    takesSteps_of_alike ((rules_stepping s n).declaration _ few) ⟨Nat.lt_succ_self _, notEnd⟩
  program _ enough :=
    takesSteps_of_alike (programItems_alike (rules_stepping s n) few [] enough enough)
      (Nat.lt_succ_self _)
  whole := takesSteps_of_alike (wholeExpression_alike (rules_stepping s n) (Nat.le_refl n)) few

end

section

variable (tokens : List Token) (firstRef : RefId)

/-- The rules of a parse do the same where the missing end has been added. -/
theorem rules_supplied (n : Nat) :
    (supplied tokens).RulesAlike n (rules (n + 1)) (rules n) := by
  rw [rules_eq n, rules_eq (n + 1)]
  exact rulesAbove_alike trivial (Nat.le_succ n) (Nat.le_refl n)

/-- A parse ends alike with the missing end and without it. -/
theorem supplied_ends {α : Type} {p q : Parser α} {φ : α → α}
    (h : (supplied tokens).Alike (tokens.length + 1) (tokens.length + 1) p q φ)
    (same : ∀ a, φ a = a) :
    ∃ s s' : ParseState, s'.errors = s.errors ∧ s'.nextRef = s.nextRef ∧
      ((∃ a, q (.start tokens firstRef) = .ok a s ∧
          p (.start (tokens ++ [Token.missingEnd]) firstRef) = .ok a s') ∨
        ∃ e, q (.start tokens firstRef) = .error e s ∧
          p (.start (tokens ++ [Token.missingEnd]) firstRef) = .error e s') := by
  have ends := h (.start (tokens ++ [Token.missingEnd]) firstRef) (.start tokens firstRef)
    ⟨.first, #[], firstRef, rfl, rfl⟩ (Nat.lt_succ_self _)
  revert ends
  generalize p (.start (tokens ++ [Token.missingEnd]) firstRef) = x
  generalize q (.start tokens firstRef) = y
  intro ends
  cases ends with
  | @ok a b s' s equal related =>
    obtain ⟨c, errors, nextRef, rfl, rfl⟩ := related
    refine ⟨c.state errors nextRef, c.supplied.state errors nextRef, rfl, rfl, .inl ⟨b, rfl, ?_⟩⟩
    rw [equal, same]
  | @error e s' s related =>
    obtain ⟨c, errors, nextRef, rfl, rfl⟩ := related
    exact ⟨c.state errors nextRef, c.supplied.state errors nextRef, rfl, rfl, .inr ⟨e, rfl, rfl⟩⟩

end

end Parser

open Lox.Parser

variable (tokens) (firstRef : RefId)

theorem parseProgram_supplied :
    parseProgram (tokens ++ [Token.missingEnd]) firstRef = parseProgram tokens firstRef := by
  have alike := programItems_alike (rules_supplied tokens (tokens.length + 1)) (Nat.le_refl _) []
    (Nat.le_succ _) (Nat.le_refl _)
  obtain ⟨s, s', errors, nextRef, ⟨ss, ends, ends'⟩ | ⟨e, ends, ends'⟩⟩ :=
    supplied_ends tokens firstRef alike (List.map_id'' Stmt.mapMarks_id)
  all_goals
    rw [List.map_nil] at ends'
    simp only [parseProgram, List.length_append, List.length_singleton, ends, ends', errors,
      nextRef]

theorem parseExpression_supplied :
    parseExpression (tokens ++ [Token.missingEnd]) firstRef = parseExpression tokens firstRef := by
  have alike := wholeExpression_alike (rules_supplied tokens (tokens.length + 1)) (Nat.le_refl _)
  obtain ⟨s, s', errors, nextRef, ⟨e, ends, ends'⟩ | ⟨e, ends, ends'⟩⟩ :=
    supplied_ends tokens firstRef alike Expr.mapMarks_id
  all_goals
    simp only [parseExpression, List.length_append, List.length_singleton, ends, ends', errors,
      nextRef]

/-- **A missing end behaves as one**, whatever the tokens are:

- Parsed as a program or as an expression, they give what they give with the end behind them: the
  same trees with the same numbers of references, and the same errors at the same tokens.
- No token outside of the list is ever read. From the start of the parse, its rules do nothing but
  steps, and in all states that steps lead to there is a cursor in the list: what is next is the
  token at the cursor if there is one, what was taken last is the token in front of it if there is
  one, and where there is none they are the end. -/
theorem missing_end_supplied :
    parseProgram tokens firstRef = parseProgram (tokens ++ [Token.missingEnd]) firstRef ∧
    parseExpression tokens firstRef = parseExpression (tokens ++ [Token.missingEnd]) firstRef ∧
    ∀ s, (ParseState.start tokens firstRef).Steps s →
      (∃ c : Cursor tokens, s.peek = c.next ∧ s.previous = c.previous ∧
        s.advance = c.advance.state s.errors s.nextRef) ∧
      ∀ n, s.rest.length < n → Rules.TakeSteps (rules n) s := by
  refine ⟨(parseProgram_supplied tokens firstRef).symm,
    (parseExpression_supplied tokens firstRef).symm,
    fun s steps => ⟨?_, fun n few => rules_takeSteps few⟩⟩
  have begins : ParseState.start tokens firstRef =
      (Cursor.first : Cursor tokens).state #[] firstRef := rfl
  obtain ⟨c, isState⟩ := steps.cursor begins
  refine ⟨c, ?_, ?_, ?_⟩
  · rw [isState, Cursor.peek_state]
  · rw [isState]
    rfl
  · rw [isState, Cursor.advance_state]
    rfl

end Lox
