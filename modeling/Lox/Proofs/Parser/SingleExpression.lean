import Lox.Proofs.Parser.Acceptance

/-!
# Single expressions

Tokens that are parsed as one expression without an error are those that the grammar derives as an
expression, and the end. The numbers of the references have no part in it.
-/

namespace Lox

open Grammar (Expression Quiet)

namespace Parser

theorem wholeExpression_reads {n : Nat} {r : Rules} (hr : r.Sound n) :
    Reads n (wholeExpression r) fun ts e follow =>
      Expression ts e.bare ∧ (follow.headD Token.missingEnd).isEnd = true := by
  have behind (e : Expr RefId) : Reads n
      (atEnd >>= fun ended => if ended = true then pure e else failHere .expectedEnd)
      fun ts e' follow => ts = [] ∧ e' = e ∧ (follow.headD Token.missingEnd).isEnd = true := by
    refine (Reads.bind reads_atEnd fun ended =>
      Reads.ite reads_pure (reads_failHere (D := fun _ _ _ => False))).mono ?_
    rintro ts e' follow ⟨ended, ts₁, ts₂, rfl, ⟨rfl, isEnd⟩, ⟨stop, rfl, rfl⟩ | ⟨-, impossible⟩⟩
    · exact ⟨rfl, rfl, isEnd.symm.trans stop⟩
    · exact impossible.elim
  refine (hr.expression.bind behind).mono ?_
  rintro ts e follow ⟨e', ts₁, ts₂, rfl, derived, rfl, rfl, stop⟩
  rw [List.append_nil]
  exact ⟨derived, stop⟩

theorem wholeExpression_takes {n : Nat} {r : Rules} (hr : r.Complete n) {ts : List Token}
    {e : Expr Unit} {ending : Token} (derived : Expression ts e) (few : ts.length < n)
    (ends : ending.kind = .endOfInput) :
    Takes (wholeExpression r) (ts ++ [ending]) [ending] (·.bare = e) := by
  have quiet : Quiet 0 [ending] := Grammar.quiet_of_none (by rw [ends]; rfl)
  refine (hr.expression derived few quiet).bind fun e' same => ?_
  refine takes_atEnd.bind fun ended is => ?_
  have isEnd : ending.isEnd = true := Kind.sameSort_endOfInput.2 ends
  rw [is, List.headD_cons, isEnd]
  exact takes_pure same

end Parser

open Lox.Parser

/-- The tokens are those of an expression with this tree, and the end. -/
def IsSingle (tokens : List Token) (tree : Expr Unit) : Prop :=
  ∃ ts ending, tokens = ts ++ [ending] ∧ ending.kind = .endOfInput ∧ Expression ts tree

/-- What is parsed as an expression without an error is one. -/
theorem isSingle_of_noErrors {tokens : List Token} (ends : EndsOnce tokens) {firstRef : RefId}
    {e : Expr RefId} (noErrors : (parseExpression tokens firstRef).errors = [])
    (given : (parseExpression tokens firstRef).result = some e) : IsSingle tokens e.bare := by
  obtain ⟨ts, ending, rfl, isEnd, others⟩ := ends
  have read := wholeExpression_reads (rules_sound ((ts ++ [ending]).length + 1))
    (.start (ts ++ [ending]) firstRef)
  simp only [parseExpression] at noErrors given
  revert read noErrors given
  cases wholeExpression (rules ((ts ++ [ending]).length + 1)) (.start (ts ++ [ending]) firstRef) with
  | error e s => simp
  | ok e' s =>
    intro noErrors given ⟨_, took⟩
    cases given
    have empty : s.errors = #[] := Array.toList_eq_nil_iff.1 noErrors
    have same : s.errors.size = (ParseState.start (ts ++ [ending]) firstRef).errors.size := by
      rw [empty]
      rfl
    obtain ⟨taken, split, notEnd, derived, stop⟩ := took same (Nat.lt_succ_self _)
    obtain ⟨rfl, -⟩ := taken_of_endsOnce isEnd others split notEnd stop
    exact ⟨taken, ending, rfl, Kind.sameSort_endOfInput.1 isEnd, derived⟩

/-- An expression is parsed as one, without an error. -/
theorem parseExpression_of_isSingle {tokens : List Token} {tree : Expr Unit}
    (single : IsSingle tokens tree) (firstRef : RefId) :
    (parseExpression tokens firstRef).errors = [] ∧
      ∃ e, (parseExpression tokens firstRef).result = some e ∧ e.bare = tree := by
  obtain ⟨ts, ending, rfl, ends, derived⟩ := single
  have few : ts.length < (ts ++ [ending]).length + 1 := by
    rw [List.length_append]
    omega
  have takes := wholeExpression_takes (rules_complete ((ts ++ [ending]).length + 1)) derived few ends
  obtain ⟨e, s, result, -, kept, same⟩ := takes (.start (ts ++ [ending]) firstRef) rfl
  have none : s.errors = #[] := kept
  simp only [parseExpression, result, none]
  exact ⟨trivial, e, rfl, same⟩

end Lox
