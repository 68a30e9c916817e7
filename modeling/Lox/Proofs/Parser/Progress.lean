import Lox.Proofs.Parser.Acceptance
import Lox.Proofs.Parser.PairedStatements

/-!
# The progress of a parse

A parse comes to its end whatever the tokens are, and loses none of them without an error. A
declaration that begins before the end takes a token, so a program is read in finitely many
declarations, and none of the bounds of the rules is ever reached.
-/

namespace Lox

/-- Both parses are in the same state. -/
def Pairing.same : Pairing where
  related := Eq
  number id := id
  semicolons := True
  peek := congrArg ParseState.peek
  advance h _ _ := congrArg ParseState.advance h
  record h e := congrArg (·.record e) h
  nextRef := congrArg ParseState.nextRef
  fresh h := h ▸ rfl

namespace Pairing

theorem same_expr (e : Expr RefId) : same.expr e = e := e.mapMarks_id

theorem same_stmt (s : Stmt RefId) : same.stmt s = s := s.mapMarks_id

theorem same_stmts (ss : List (Stmt RefId)) : ss.map same.stmt = ss :=
  List.map_id'' same_stmt ss

/-- What ends alike in the same state ends in the same way. -/
theorem eq_of_same {α : Type} {fit : ParseState → Prop} {m : Nat} {p q : Parser α} {φ : α → α}
    (h : same.AlikeWhere fit m p q φ) (id : ∀ a, φ a = a) {s : ParseState} (fits : fit s) :
    p s = q s := by
  have ends := h s s rfl fits
  revert ends
  generalize p s = x
  generalize q s = y
  intro ends
  cases ends with
  | ok equal related => rw [equal, id, show _ = _ from related]
  | error related => rw [show _ = _ from related]

end Pairing

/-- Declarations are read one after the other, each of them begun before the end. -/
inductive Rules.Declares (r : Rules) : ParseState → List (Stmt RefId) → ParseState → Prop
  | none {s : ParseState} : Declares r s [] s
  | more {s s₁ s₂ : ParseState} {s? : Option (Stmt RefId)} {ss : List (Stmt RefId)} :
    s.atEnd = false → r.declaration s = .ok s? s₁ → Declares r s₁ ss s₂ →
    Declares r s (s?.toList ++ ss) s₂

/-- A declaration that begins before the end, where fewer than `n` tokens are left, comes to an end
of its own and takes a token. -/
def Rules.Advances (n : Nat) (r : Rules) : Prop :=
  ∀ s : ParseState, s.rest.length < n → s.atEnd = false →
    ∃ s? s', r.declaration s = .ok s? s' ∧ s'.rest.length < s.rest.length

namespace Rules

variable {n : Nat} {r : Rules} {s s₁ s₂ : ParseState} {ss ss' : List (Stmt RefId)}

theorem Declares.trans (first : r.Declares s ss s₁) (second : r.Declares s₁ ss' s₂) :
    r.Declares s (ss ++ ss') s₂ := by
  induction first with
  | none => exact second
  | more notEnd result _ ih =>
    rw [List.append_assoc]
    exact .more notEnd result (ih second)

/-- Finitely many declarations lead to the end. -/
theorem Advances.declares (h : r.Advances n) (few : s.rest.length < n) :
    ∃ ss s', r.Declares s ss s' ∧ s'.atEnd = true := by
  induction left : s.rest.length using Nat.strongRecOn generalizing s with
  | ind k ih =>
    subst left
    cases ended : s.atEnd with
    | true => exact ⟨[], s, .none, ended⟩
    | false =>
      obtain ⟨s?, s₁, result, fewer⟩ := h s few ended
      obtain ⟨ss, s', rest, atEnd⟩ := ih _ fewer (Nat.lt_trans fewer few) rfl
      exact ⟨_, s', .more ended result rest, atEnd⟩

/-- The items of a program are what its declarations give. -/
theorem Declares.programItems (declares : r.Declares s ss s₁) (h : r.Advances n)
    (few : s.rest.length < n) (ended : s₁.atEnd = true) {k : Nat} (enough : s.rest.length < k)
    (seen : List (Stmt RefId)) :
    Parser.programItems r k seen s = .ok (seen.reverse ++ ss) s₁ := by
  induction declares generalizing k seen with
  | none =>
    obtain ⟨k, rfl⟩ := Nat.exists_eq_add_one_of_ne_zero (Nat.ne_zero_of_lt enough)
    simp only [Parser.programItems, Bind.bind, EStateM.bind, Parser.atEnd, ended, if_true,
      List.append_nil]
    rfl
  | @more s s₁ s₂ s? ss notEnd result _ ih =>
    obtain ⟨k, rfl⟩ := Nat.exists_eq_add_one_of_ne_zero (Nat.ne_zero_of_lt enough)
    obtain ⟨_, _, result', fewer⟩ := h s few notEnd
    rw [result] at result'
    cases result'
    have few' := Nat.lt_trans fewer few
    have enough' : s₁.rest.length < k := by omega
    simp only [Parser.programItems, Bind.bind, EStateM.bind, Parser.atEnd, notEnd,
      Bool.false_eq_true, if_false, result]
    cases s? with
    | none => exact ih few' ended enough' seen
    | some stmt =>
      rw [Option.toList_some, List.singleton_append, List.append_cons, ← List.reverse_cons]
      exact ih few' ended enough' (stmt :: seen)

end Rules

namespace Parser

/-- A declaration comes to an end of its own: with a statement, or with an error that is
recorded. -/
theorem declaration_ok (n : Nat) (r : Rules) (s : ParseState) :
    (∃ stmt s', declaration n r s = .ok (some stmt) s') ∨
      ∃ e s₁, declarationOrError n r s = .error e s₁ ∧
        declaration n r s = .ok none (synchronize (s₁.record e)) := by
  unfold declaration
  cases declarationOrError n r s with
  | ok stmt s' => exact .inl ⟨stmt, s', rfl⟩
  | error e s₁ => exact .inr ⟨e, s₁, rfl, rfl⟩

section

variable (base : Rules) {n : Nat} {s : ParseState}

/-- The rules of a parse do the same as themselves. -/
theorem rulesAbove_same (n : Nat) :
    Pairing.same.RulesAlike n (rulesAbove base n) (rulesAbove base n) :=
  rulesAbove_alike trivial (Nat.le_refl n) (Nat.le_refl n)

/-- A declaration that begins before the end takes a token. If it gives no statement, it adds to the
errors. -/
theorem declaration_advances (few : s.rest.length < n) (notEnd : s.atEnd = false) :
    ∃ s? s', (rulesAbove base n).declaration s = .ok s? s' ∧ s.Onward s' ∧
      s'.rest.length < s.rest.length ∧ (s? = none → s.errors.size < s'.errors.size) := by
  obtain ⟨n, rfl⟩ := Nat.exists_eq_add_one_of_ne_zero (Nat.ne_zero_of_lt few)
  have inner := rulesAbove_same base n
  have ends := declaration_progress trivial inner (Nat.le_refl n) (Nat.le_refl n) _ few s s rfl
    ⟨Nat.lt_succ_self _, notEnd⟩
  have before := declarationOrError_progress trivial inner (Nat.le_refl n) (Nat.le_refl n) _ few s s
    rfl (Nat.lt_succ_self _)
  have unfolded : (rulesAbove base (n + 1)).declaration s = declaration n (rulesAbove base n) s :=
    rfl
  rw [unfolded]
  rcases declaration_ok n (rulesAbove base n) s with ⟨stmt, s', result⟩ | ⟨e, s₁, failed, result⟩
  · rw [result] at ends ⊢
    cases ends with
    | ok _ _ onward fewer => exact ⟨some stmt, s', rfl, onward, fewer, nofun⟩
  · rw [result] at ends ⊢
    rw [failed] at before
    cases ends with
    | ok _ _ onward fewer =>
      refine ⟨none, _, rfl, onward, fewer, fun _ => ?_⟩
      cases before with
      | error _ onward =>
        have kept := onward.errors_le
        have added : (synchronize (s₁.record e)).errors.size = s₁.errors.size + 1 := by
          simp only [synchronize, ParseState.errors_advance]
          exact Array.size_push _
        omega

theorem rulesAbove_advances (n : Nat) : (rulesAbove base n).Advances n := by
  intro s few notEnd
  obtain ⟨s?, s', result, -, fewer, -⟩ := declaration_advances base few notEnd
  exact ⟨s?, s', result, fewer⟩

end

end Parser

open Lox.Parser

/-- What a parse gives whose items are read. -/
theorem parseProgram_eq {tokens : List Token} {firstRef : RefId} {ss : List (Stmt RefId)}
    {s' : ParseState} (items : programItems (rules (tokens.length + 1)) (tokens.length + 1) []
      (.start tokens firstRef) = .ok ss s') :
    parseProgram tokens firstRef = ⟨ss, s'.errors.toList, s'.nextRef⟩ := by
  simp only [parseProgram, items]

/-- **A parse comes to its end and loses nothing without an error.** Whatever the tokens are, with
an end or without one:

- A program is read in finitely many declarations, each begun before the end, up to the end, and
  neither larger bounds for the rules nor other rules for where these bounds are reached make a
  difference, also for an expression. So no bound is ever reached.
- A declaration that begins before the end takes at least one token and no end, and only adds to the
  errors; it does so if it gives no statement.
- If there is no error, the statements derive from all tokens before the end. -/
theorem parse_progresses (tokens : List Token) (firstRef : RefId) :
    (∀ base more,
      let n := tokens.length + 1 + more
      (∃ ss s', (rulesAbove base n).Declares (.start tokens firstRef) ss s' ∧ s'.atEnd = true ∧
        programItems (rulesAbove base n) n [] (.start tokens firstRef) = .ok ss s' ∧
          parseProgram tokens firstRef = ⟨ss, s'.errors.toList, s'.nextRef⟩) ∧
      wholeExpression (rulesAbove base n) (.start tokens firstRef) =
        wholeExpression (rules (tokens.length + 1)) (.start tokens firstRef)) ∧
    (∀ base n (s : ParseState), s.rest.length < n → s.atEnd = false →
      ∃ s? s' taken new, (rulesAbove base n).declaration s = .ok s? s' ∧
        s.rest = taken ++ s'.rest ∧ taken ≠ [] ∧ (∀ t ∈ taken, t.isEnd = false) ∧
          s'.errors.toList = s.errors.toList ++ new ∧ (s? = none → new ≠ [])) ∧
    ((parseProgram tokens firstRef).errors = [] →
      ∃ taken follow, tokens = taken ++ follow ∧ (∀ t ∈ taken, t.isEnd = false) ∧
        (follow.headD Token.missingEnd).isEnd = true ∧
          Grammar.Declarations true taken
            ((parseProgram tokens firstRef).result.map Stmt.bare)) := by
  have few : (ParseState.start tokens firstRef).rest.length < tokens.length + 1 :=
    Nat.lt_succ_self _
  have larger (more : Nat) : tokens.length + 1 ≤ tokens.length + 1 + more := Nat.le_add_right _ _
  have alike (base : Rules) (more : Nat) :
      Pairing.same.RulesAlike (tokens.length + 1) (rulesAbove base (tokens.length + 1 + more))
        (rules (tokens.length + 1)) := by
    rw [rules_eq]
    exact rulesAbove_alike trivial (larger more) (Nat.le_refl _)
  refine ⟨fun base more => ⟨?_, ?_⟩, fun base n s few notEnd => ?_, fun noErrors => ?_⟩
  · have enough := Nat.lt_of_lt_of_le few (larger more)
    have advances := rulesAbove_advances base (tokens.length + 1 + more)
    obtain ⟨ss, s', declares, ended⟩ := advances.declares enough
    have items := declares.programItems advances enough ended enough []
    have same := programItems_alike (alike base more) (Nat.le_refl _) [] (larger more)
      (Nat.le_refl _)
    have items' := (Pairing.eq_of_same same Pairing.same_stmts few).symm.trans items
    exact ⟨ss, s', declares, ended, items, parseProgram_eq items'⟩
  · exact Pairing.eq_of_same (wholeExpression_alike (alike base more) (Nat.le_refl _))
      Pairing.same_expr few
  · obtain ⟨s?, s', result, onward, fewer, recorded⟩ := declaration_advances base few notEnd
    obtain ⟨⟨taken, split, notEnds⟩, new, added⟩ := onward
    refine ⟨s?, s', taken, new, result, split, ?_, notEnds, added, fun none => ?_⟩
    · rintro rfl
      rw [split] at fewer
      exact Nat.lt_irrefl _ fewer
    · rintro rfl
      have more := recorded none
      rw [← Array.length_toList, ← Array.length_toList, added, List.append_nil] at more
      exact Nat.lt_irrefl _ more
  · obtain ⟨taken, follow, split, notEnds, derived, ends⟩ := parseProgram_derives noErrors
    exact ⟨taken, follow, split, notEnds, ends, derived⟩

/-- The tokens of a block without an end: the block is in error behind its last token, and so is the
statement in it. -/
theorem parse_progresses_unclosed :
    let tokens : List Token :=
      [⟨.symbol .leftBrace, "\x7b", 1⟩, ⟨.keyword .printKw, "print", 1⟩]
    let s := ParseState.start tokens 0
    s.rest.length < 3 ∧ s.atEnd = false ∧
      (∃ s? s' taken new, (rulesAbove (rules 0) 3).declaration s = .ok s? s' ∧
        s.rest = taken ++ s'.rest ∧ taken ≠ [] ∧ (∀ t ∈ taken, t.isEnd = false) ∧
          s'.errors.toList = s.errors.toList ++ new ∧ (s? = none → new ≠ [])) ∧
        (parseProgram tokens 0).errors =
          [⟨.expectedExpression, .missingEnd⟩,
            ⟨.expectedSymbol .rightBrace "after block", .missingEnd⟩] := by
  intro tokens s
  have few : s.rest.length < 3 := by decide
  exact ⟨few, rfl, (parse_progresses tokens 0).2.1 (rules 0) 3 s few rfl, rfl⟩

end Lox
