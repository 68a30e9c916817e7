import Lox.Parser.Program

/-!
# What the rules of a parse give

`p.Gives ok P` says that the rule `p`, started where all tokens left are `ok`, gives only results
with the property `P`, and that all tokens left are still `ok` behind it, also where it stops with
an error. The tokens of errors are `ok` too. There is one lemma for each step that a rule is made of,
so that what a rule gives follows from what its steps give.
-/

namespace Lox

/-- All tokens that a parse still sees are `ok`. -/
structure ParseState.AllTokens (ok : Token → Prop) (s : ParseState) : Prop where
  rest : ∀ t ∈ s.rest, ok t
  previous : ok s.previous
  /-- The end is never taken, so the token that stands for a missing end is never read if there is
  one. -/
  ends : ok Token.missingEnd ∨ ∃ t ∈ s.rest, t.isEnd = true
  errors : ∀ e ∈ s.errors, ok e.token

/-- Results have the property `P`, and all tokens stay `ok`. -/
def Parser.Gives {α : Type} (ok : Token → Prop) (p : Parser α) (P : α → Prop) : Prop :=
  ∀ s : ParseState, s.AllTokens ok →
    match p s with
    | .ok a s' => P a ∧ s'.AllTokens ok
    | .error e s' => ok e.token ∧ s'.AllTokens ok

namespace ParseState

variable {ok : Token → Prop} {s : ParseState}

theorem AllTokens.peek (h : s.AllTokens ok) : ok s.peek := by
  cases hr : s.rest with
  | nil => simpa [ParseState.peek, hr] using h.ends
  | cons t rest => simpa [ParseState.peek, hr] using h.rest t (by simp [hr])

theorem AllTokens.advance (h : s.AllTokens ok) : s.advance.AllTokens ok := by
  unfold ParseState.advance
  split
  · exact h
  · next t rest hr =>
    split
    · exact h
    · next notEnd =>
      refine ⟨fun u hu => h.rest u (by simp [hr, hu]), h.rest t (by simp [hr]), ?_, h.errors⟩
      refine h.ends.imp_right fun ⟨u, mem, isEnd⟩ => ?_
      rw [hr] at mem
      rcases List.mem_cons.1 mem with rfl | mem
      · exact absurd isEnd notEnd
      · exact ⟨u, mem, isEnd⟩

theorem AllTokens.record (h : s.AllTokens ok) {e : SyntaxError} (he : ok e.token) :
    (s.record e).AllTokens ok := by
  refine ⟨h.rest, h.previous, h.ends, fun e' mem => ?_⟩
  rcases Array.mem_push.1 mem with mem | rfl
  · exact h.errors e' mem
  · exact he

/-- Where the end is not next, the token taken is the one that was next. -/
theorem previous_advance (h : s.atEnd = false) : s.advance.previous = s.peek := by
  cases hr : s.rest with
  | nil =>
    simp [atEnd, ParseState.peek, hr, Token.isEnd, Token.missingEnd, Kind.sameSort] at h
  | cons t rest =>
    have notEnd : t.isEnd = false := by simpa [atEnd, ParseState.peek, hr] using h
    simp [ParseState.advance, ParseState.peek, hr, notEnd]

theorem all_skipToBoundary {previous : Token} {rest : List Token} (hp : ok previous)
    (hr : ∀ t ∈ rest, ok t) :
    ok (Parser.skipToBoundary previous rest).1 ∧
      ∀ t ∈ (Parser.skipToBoundary previous rest).2, ok t := by
  induction rest generalizing previous with
  | nil => exact ⟨hp, hr⟩
  | cons t rest ih =>
    unfold Parser.skipToBoundary
    split
    · exact ⟨hp, hr⟩
    · exact ih (hr t (by simp)) fun u hu => hr u (by simp [hu])

/-- Tokens are dropped up to the end at most. -/
theorem end_mem_skipToBoundary {t : Token} {rest : List Token} (isEnd : t.isEnd = true)
    (mem : t ∈ rest) (previous : Token) : t ∈ (Parser.skipToBoundary previous rest).2 := by
  induction rest generalizing previous with
  | nil => exact mem
  | cons u rest ih =>
    unfold Parser.skipToBoundary
    split
    · exact mem
    · next boundary =>
      rcases List.mem_cons.1 mem with rfl | mem
      · exact absurd (by simp [isEnd]) boundary
      · exact ih mem u

theorem AllTokens.synchronize (h : s.AllTokens ok) : (Parser.synchronize s).AllTokens ok := by
  have advanced := h.advance
  obtain ⟨hp, hr⟩ := all_skipToBoundary advanced.previous advanced.rest
  exact ⟨hr, hp, advanced.ends.imp_right fun ⟨t, mem, isEnd⟩ =>
    ⟨t, end_mem_skipToBoundary isEnd mem _, isEnd⟩, advanced.errors⟩

end ParseState

namespace Parser

variable {α β : Type} {ok : Token → Prop} {P : α → Prop} {Q : β → Prop}

theorem Gives.mono {p : Parser α} {P' : α → Prop} (h : p.Gives ok P) (imp : ∀ a, P a → P' a) :
    p.Gives ok P' := by
  intro s hs
  have given := h s hs
  revert given
  cases p s with
  | ok a s' => exact fun given => ⟨imp a given.1, given.2⟩
  | error e s' => exact id

theorem gives_pure {a : α} (h : P a) : Gives ok (pure a) P := fun _ hs => ⟨h, hs⟩

theorem Gives.bind {p : Parser α} {f : α → Parser β} (hp : p.Gives ok P)
    (hf : ∀ a, P a → (f a).Gives ok Q) : (p >>= f).Gives ok Q := by
  intro s hs
  have first := hp s hs
  simp only [Bind.bind, EStateM.bind]
  revert first
  cases p s with
  | ok a s' => exact fun first => hf a first.1 s' first.2
  | error e s' => exact id

theorem Gives.map {p : Parser α} {f : α → β} (hp : p.Gives ok fun a => Q (f a)) :
    (f <$> p).Gives ok Q := by
  intro s hs
  have first := hp s hs
  simp only [Functor.map, EStateM.map]
  revert first
  cases p s with
  | ok a s' => exact id
  | error e s' => exact id

theorem Gives.ite {c : Prop} [Decidable c] {p q : Parser α} (hp : p.Gives ok P)
    (hq : q.Gives ok P) : (if c then p else q).Gives ok P := by
  split
  · exact hp
  · exact hq

/-- Two ways to read something that the rule then goes on with. -/
theorem Gives.choose {c : Prop} [Decidable c] {p q : Parser α} {f : α → Parser β}
    (hp : p.Gives ok P) (hq : q.Gives ok P) (hf : ∀ a, P a → (f a).Gives ok Q) :
    (if c then p >>= f else q >>= f).Gives ok Q :=
  .ite (hp.bind hf) (hq.bind hf)

theorem gives_failHere (cause : SyntaxCause) : Gives ok (failHere (α := α) cause) P :=
  fun _ hs => ⟨hs.peek, hs⟩

theorem gives_report (cause : SyntaxCause) {t : Token} (ht : ok t) :
    Gives ok (report cause t) fun _ => True :=
  fun _ hs => ⟨trivial, hs.record ht⟩

theorem gives_check (kind : Kind) : Gives ok (check kind) fun _ => True :=
  fun _ hs => ⟨trivial, hs⟩

theorem gives_checkSymbol (symbol : Symbol) : Gives ok (checkSymbol symbol) fun _ => True :=
  gives_check _

theorem gives_atEnd : Gives ok atEnd fun _ => True := fun _ hs => ⟨trivial, hs⟩

theorem gives_peek : Gives ok peek ok := fun _ hs => ⟨hs.peek, hs⟩

/-- An error may be recorded before the rule goes on. -/
theorem Gives.afterReport {c : Prop} [Decidable c] {p : Parser α} {cause : SyntaxCause}
    (hp : p.Gives ok P) :
    (if c then peek >>= fun t => report cause t >>= fun _ => p else p).Gives ok P :=
  .ite (gives_peek.bind fun _ isOk => (gives_report _ isOk).bind fun _ _ => hp) hp

theorem gives_previous : Gives ok previous ok := fun _ hs => ⟨hs.previous, hs⟩

theorem gives_advance : Gives ok advance ok := fun _ hs => ⟨hs.advance.previous, hs.advance⟩

theorem gives_accept (kind : Kind) : Gives ok (accept kind) fun _ => True := by
  intro s hs
  unfold accept
  split
  · next result =>
    split at result
    · cases result; exact ⟨trivial, hs.advance⟩
    · cases result; exact ⟨trivial, hs⟩
  · next result => split at result <;> cases result

theorem gives_acceptSymbol (symbol : Symbol) : Gives ok (acceptSymbol symbol) fun _ => True :=
  gives_accept _

theorem gives_acceptKeyword (keyword : Keyword) : Gives ok (acceptKeyword keyword) fun _ => True :=
  gives_accept _

theorem gives_freshRef : Gives ok freshRef fun _ => True :=
  fun _ hs => ⟨trivial, hs.rest, hs.previous, hs.ends, hs.errors⟩

theorem gives_reference (name : Name) :
    Gives ok (reference name) fun r => r.name = name :=
  gives_freshRef.bind fun _ _ => gives_pure rfl

/-- The token that had to stand there is of the sort asked for. -/
theorem gives_expect (kind : Kind) (cause : SyntaxCause) :
    Gives ok (expect kind cause) fun t => ok t ∧ t.kind.sameSort kind = true := by
  intro s hs
  simp only [expect, Bind.bind, EStateM.bind, check]
  cases next : s.isNext kind with
  | false => exact ⟨hs.peek, hs⟩
  | true =>
    simp only [ParseState.isNext, Bool.and_eq_true, Bool.not_eq_true'] at next
    refine ⟨⟨hs.advance.previous, ?_⟩, hs.advance⟩
    rw [ParseState.previous_advance next.1]
    exact next.2

theorem gives_expectSymbol (symbol : Symbol) (place : String) :
    Gives ok (expectSymbol symbol place) fun t => ok t :=
  (gives_expect _ _).mono fun _ h => h.1

/-- A name is the text of an identifier. -/
theorem gives_expectName (sort : String) :
    Gives ok (expectName sort) fun name =>
      ∃ t, ok t ∧ t.kind = .identifier ∧ name = ⟨t.lexeme, t.line⟩ := by
  refine (gives_expect _ _).bind fun t ht => gives_pure ⟨t, ht.1, ?_, rfl⟩
  have same := ht.2
  cases kind : t.kind <;> simp [kind, Kind.sameSort] at same
  rfl

end Parser

end Lox
