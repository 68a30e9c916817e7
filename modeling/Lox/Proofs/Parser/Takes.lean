import Lox.Proofs.Parser.Reads

/-!
# What the rules of a parse take

`Takes p input follow P` says that the rule `p`, where `input` is left, comes to a result with the
property `P`, records no error and leaves `follow`.
-/

namespace Lox

open Grammar (Begins)

namespace Parser

/-- The rule takes what stands before `follow` without an error. -/
def Takes {α : Type} (p : Parser α) (input follow : List Token) (P : α → Prop) : Prop :=
  ∀ s : ParseState, s.rest = input →
    ∃ a s', p s = .ok a s' ∧ s'.rest = follow ∧ s'.errors = s.errors ∧ P a

variable {α β : Type} {input middle follow rest : List Token} {t : Token} {kind : Kind}
  {p q : Parser α} {f : α → Parser β} {P : α → Prop} {Q : β → Prop}

theorem Takes.mono {P' : α → Prop} (h : Takes p input follow P) (imp : ∀ a, P a → P' a) :
    Takes p input follow P' := by
  intro s left
  obtain ⟨a, s', result, left', kept, holds⟩ := h s left
  exact ⟨a, s', result, left', kept, imp a holds⟩

theorem takes_pure {a : α} (h : P a) : Takes (pure a) input input P :=
  fun s left => ⟨a, s, rfl, left, rfl, h⟩

theorem Takes.bind (hp : Takes p input middle P) (hf : ∀ a, P a → Takes (f a) middle follow Q) :
    Takes (p >>= f) input follow Q := by
  intro s left
  obtain ⟨a, s₁, result, left₁, kept₁, holds⟩ := hp s left
  obtain ⟨b, s', result', left', kept', holds'⟩ := hf a holds s₁ left₁
  refine ⟨b, s', ?_, left', kept'.trans kept₁, holds'⟩
  simp only [Bind.bind, EStateM.bind, result, result']

theorem Takes.map {f : α → β} (hp : Takes p input follow fun a => Q (f a)) :
    Takes (f <$> p) input follow Q := by
  rw [← bind_pure_comp]
  exact hp.bind fun a holds => takes_pure holds

/-! ## Single steps -/

theorem takes_freshRef : Takes freshRef input input fun _ => True :=
  fun _ left => ⟨_, _, rfl, left, rfl, trivial⟩

theorem takes_reference (name : Name) : Takes (reference name) input input (·.name = name) :=
  takes_freshRef.bind fun _ _ => takes_pure rfl

theorem takes_previous : Takes previous input input fun _ => True :=
  fun _ left => ⟨_, _, rfl, left, rfl, trivial⟩

theorem takes_atEnd :
    Takes atEnd input input (· = (input.headD Token.missingEnd).isEnd) := by
  intro s left
  refine ⟨_, s, rfl, left, rfl, ?_⟩
  rw [ParseState.atEnd, ParseState.peek, left]

/-- The rule goes on with the next token, which it does not take. -/
theorem Takes.peek {f : Token → Parser β}
    (h : Takes (f (input.headD Token.missingEnd)) input follow Q) :
    Takes (Parser.peek >>= f) input follow Q := by
  intro s left
  have next : s.peek = input.headD Token.missingEnd := by rw [ParseState.peek, left]
  obtain ⟨b, s', result, after⟩ := h s left
  refine ⟨b, s', ?_, after⟩
  simpa only [Bind.bind, EStateM.bind, Parser.peek, next] using result

theorem Takes.advance {f : Token → Parser β} (notEnd : t.isEnd = false)
    (h : Takes (f t) rest follow Q) : Takes (Parser.advance >>= f) (t :: rest) follow Q := by
  intro s left
  have advanced : s.advance = { s with rest := rest, previous := t } := by
    simp [ParseState.advance, left, notEnd]
  obtain ⟨b, s', result, after⟩ := h { s with rest := rest, previous := t } rfl
  refine ⟨b, s', ?_, after⟩
  simpa only [Bind.bind, EStateM.bind, Parser.advance, advanced] using result

theorem isNext_of {s : ParseState} (same : t.kind.sameSort kind = true)
    (notEnd : Kind.endOfInput.sameSort kind = false) (left : s.rest = t :: rest) :
    s.isNext kind = true := by
  rw [ParseState.isNext_iff notEnd, left, Grammar.begins_cons]
  exact same

theorem takes_expect (same : t.kind.sameSort kind = true)
    (notEnd : Kind.endOfInput.sameSort kind = false) (cause : SyntaxCause) :
    Takes (expect kind cause) (t :: rest) rest (· = t) := by
  intro s left
  have next := isNext_of same notEnd left
  obtain ⟨u, rest', left', -, -, advanced⟩ := ParseState.advance_of_isNext next
  obtain ⟨rfl, rfl⟩ := List.cons.inj (left.symm.trans left')
  refine ⟨t, s.advance, ?_, by rw [advanced], by rw [advanced], rfl⟩
  simp [expect, Bind.bind, EStateM.bind, check, next, Parser.advance, advanced]

theorem takes_expectSymbol {symbol : Symbol} (is : t.kind = .symbol symbol) (place : String) :
    Takes (expectSymbol symbol place) (t :: rest) rest (· = t) :=
  takes_expect (Kind.sameSort_symbol.2 is) rfl _

theorem takes_expectName (is : t.kind = .identifier) (sort : String) :
    Takes (expectName sort) (t :: rest) rest (· = t.asName) :=
  (takes_expect (Kind.sameSort_identifier.2 is) rfl _).bind fun u same =>
    takes_pure (by rw [same]; rfl)

/-! ## Decisions -/

/-- The next token is of the sort asked for, and taken. -/
theorem Takes.taken (same : t.kind.sameSort kind = true)
    (notEnd : Kind.endOfInput.sameSort kind = false) (h : Takes p rest follow P) :
    Takes (accept kind >>= fun taken => if taken = true then p else q) (t :: rest) follow P := by
  intro s left
  have next := isNext_of same notEnd left
  obtain ⟨u, rest', left', -, -, advanced⟩ := ParseState.advance_of_isNext next
  obtain ⟨rfl, rfl⟩ := List.cons.inj (left.symm.trans left')
  obtain ⟨a, s', result, left₁, kept, holds⟩ := h s.advance (by rw [advanced])
  refine ⟨a, s', ?_, left₁, kept.trans ParseState.errors_advance, holds⟩
  simpa only [Bind.bind, EStateM.bind, accept, next, if_true] using result

theorem isNext_eq_false {s : ParseState} (notEnd : Kind.endOfInput.sameSort kind = false)
    (other : ¬ Begins (·.sameSort kind) s.rest) : s.isNext kind = false := by
  rw [← ParseState.isNext_iff notEnd] at other
  exact Bool.eq_false_iff.2 other

/-- The next token is of another sort, and left. -/
theorem Takes.passed (notEnd : Kind.endOfInput.sameSort kind = false)
    (other : ¬ Begins (·.sameSort kind) input) (h : Takes q input follow P) :
    Takes (accept kind >>= fun taken => if taken = true then p else q) input follow P := by
  intro s left
  have next : s.isNext kind = false := isNext_eq_false notEnd (left ▸ other)
  obtain ⟨a, s', result, after⟩ := h s left
  refine ⟨a, s', ?_, after⟩
  simpa only [Bind.bind, EStateM.bind, accept, next, Bool.false_eq_true, if_false] using result

/-- The next token is of the sort asked for. -/
theorem Takes.found (same : t.kind.sameSort kind = true)
    (notEnd : Kind.endOfInput.sameSort kind = false) (h : Takes p (t :: rest) follow P) :
    Takes (check kind >>= fun found => if found = true then p else q) (t :: rest) follow P := by
  intro s left
  have next := isNext_of same notEnd left
  obtain ⟨a, s', result, after⟩ := h s left
  refine ⟨a, s', ?_, after⟩
  simpa only [Bind.bind, EStateM.bind, check, next, if_true] using result

/-- The next token is of another sort. -/
theorem Takes.missed (notEnd : Kind.endOfInput.sameSort kind = false)
    (other : ¬ Begins (·.sameSort kind) input) (h : Takes q input follow P) :
    Takes (check kind >>= fun found => if found = true then p else q) input follow P := by
  intro s left
  have next : s.isNext kind = false := isNext_eq_false notEnd (left ▸ other)
  obtain ⟨a, s', result, after⟩ := h s left
  refine ⟨a, s', ?_, after⟩
  simpa only [Bind.bind, EStateM.bind, check, next, Bool.false_eq_true, if_false] using result

/-- The list stops here, at the closing symbol. -/
theorem Takes.stops {symbol : Symbol} (is : t.kind = .symbol symbol)
    (h : Takes p (t :: rest) follow P) :
    Takes (checkSymbol symbol >>= fun found => atEnd >>= fun ended =>
      if (found || ended) = true then p else q) (t :: rest) follow P := by
  intro s left
  have next := isNext_of (Kind.sameSort_symbol.2 is) rfl left
  obtain ⟨a, s', result, after⟩ := h s left
  refine ⟨a, s', ?_, after⟩
  simpa only [Bind.bind, EStateM.bind, checkSymbol, check, atEnd, next, Bool.true_or, if_true]
    using result

/-- The list goes on, with a token that is neither the closing symbol nor the end. -/
theorem Takes.goesOn {symbol : Symbol} (other : ¬ Begins (·.sameSort (.symbol symbol)) input)
    (more : (input.headD Token.missingEnd).isEnd = false) (h : Takes q input follow P) :
    Takes (checkSymbol symbol >>= fun found => atEnd >>= fun ended =>
      if (found || ended) = true then p else q) input follow P := by
  intro s left
  have next : s.isNext (.symbol symbol) = false := isNext_eq_false rfl (left ▸ other)
  have notEnded : s.atEnd = false := by
    rw [ParseState.atEnd, ParseState.peek, left]
    exact more
  obtain ⟨a, s', result, after⟩ := h s left
  refine ⟨a, s', ?_, after⟩
  simpa only [Bind.bind, EStateM.bind, checkSymbol, check, atEnd, next, notEnded, Bool.or_self,
    Bool.false_eq_true, if_false] using result

end Parser

end Lox
