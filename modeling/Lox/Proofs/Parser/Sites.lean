import Lox.Proofs.Parser.PairedStatements
import Lox.Proofs.Scope.Unmarked

/-!
# Up to a semicolon

A statement that a semicolon ends is read side by side with itself where nothing stands before or
behind it. If none of its other tokens is a boundary, both parses are in the same place up to the
semicolon. Then both go on behind it, with the same statement or with the same error: if an error
stops them before, the semicolon ends what is dropped.
-/

namespace Lox

open Grammar Pairing Lox.Parser

/-- The token is no boundary between statements: it neither ends one nor begins one. -/
structure Token.Plain (t : Token) : Prop where
  notEnd : t.isEnd = false
  notSemicolon : t.kind ≠ .symbol .semicolon
  notBegin : Parser.beginsStatement t = false

/-! ## On the way to the semicolon -/

/-- Where a statement stands that a semicolon ends: the semicolon, the tokens behind it, the errors
before the statement and its first reference. -/
structure Site where
  semicolon : Token
  isSemicolon : semicolon.kind = .symbol .semicolon
  follow : List Token
  errors : List SyntaxError
  firstRef : RefId

namespace Site

theorem notEnd (site : Site) : site.semicolon.isEnd = false :=
  Token.isEnd_of_kind site.isSemicolon rfl

/-- The plain tokens are left before the semicolon. -/
structure Reaches (site : Site) (ts : List Token) (s : ParseState) : Prop where
  rest : s.rest = ts ++ site.semicolon :: site.follow
  plain : ∀ t ∈ ts, t.Plain

variable {site : Site} {s t : ParseState} {ts : List Token}

theorem Reaches.peek (h : site.Reaches ts s) : s.peek = site.semicolon ∨ s.peek ∈ ts.head? := by
  rw [ParseState.peek, h.rest]
  cases ts with
  | nil => exact .inl rfl
  | cons u ts => exact .inr rfl

/-- Nothing before the semicolon is a boundary. -/
theorem Reaches.next (h : site.Reaches ts s) :
    s.atEnd = false ∧ Parser.beginsStatement s.peek = false := by
  rw [ParseState.atEnd]
  rcases h.peek with is | mem
  · rw [is]
    exact ⟨site.notEnd, by simp [Parser.beginsStatement, site.isSemicolon]⟩
  · have plain := h.plain _ (List.mem_of_mem_head? mem)
    exact ⟨plain.notEnd, plain.notBegin⟩

theorem Reaches.notBrace (h : site.Reaches ts s)
    (other : ¬ Begins (·.sameSort (.symbol .leftBrace)) ts) : s.peek.kind ≠ .symbol .leftBrace := by
  intro brace
  rcases h.peek with is | mem
  · rw [is, site.isSemicolon] at brace
    cases brace
  · exact other ⟨s.peek, mem, Kind.sameSort_symbol.2 brace⟩

/-- The next boundary is behind the semicolon. -/
theorem Reaches.synchronize (h : site.Reaches ts s) :
    (Parser.synchronize s).rest = site.follow := by
  rw [synchronize_eq]
  induction ts generalizing s with
  | nil =>
    rw [ParseState.advance_of_rest h.rest site.notEnd, atBoundary_eq]
    simp [site.isSemicolon]
  | cons u ts ih =>
    have plain := h.plain u (List.mem_cons_self ..)
    have advanced := ParseState.advance_of_rest h.rest plain.notEnd
    have reaches : site.Reaches ts s.advance :=
      ⟨by rw [advanced]; rfl, fun t mem => h.plain t (List.mem_cons_of_mem _ mem)⟩
    have isPrevious : s.advance.previous = u := by rw [advanced]
    have other : u.kind.sameSort (.symbol .semicolon) = false :=
      Bool.eq_false_iff.2 fun same => plain.notSemicolon (Kind.sameSort_symbol.1 same)
    rw [atBoundary_eq, reaches.next.1, reaches.next.2, isPrevious, other, Bool.or_self,
      Bool.or_self, if_neg Bool.false_ne_true]
    exact ih reaches

/-- The site of the statement where nothing stands before it or behind it. -/
def alone (site : Site) : Site where
  semicolon := site.semicolon
  isSemicolon := site.isSemicolon
  follow := []
  errors := []
  firstRef := 0

/-- The first parse, of the whole program, is as far from the semicolon as the second, of the
statement alone, and both have found the same errors and references. -/
structure Matches (site : Site) (ts : List Token) (s t : ParseState) : Prop where
  reaches : site.Reaches ts s
  alone : site.alone.Reaches ts t
  errors : s.errors.toList = site.errors ++ t.errors.toList
  nextRef : s.nextRef = site.firstRef + t.nextRef

/-- The token before the semicolon is taken. -/
theorem Matches.advance {u : Token} (h : site.Matches (u :: ts) s t) :
    site.Matches ts s.advance t.advance := by
  have plain := h.reaches.plain
  have notEnd := (plain u (List.mem_cons_self ..)).notEnd
  have plain' : ∀ t ∈ ts, t.Plain := fun t mem => plain t (List.mem_cons_of_mem _ mem)
  rw [ParseState.advance_of_rest h.reaches.rest notEnd,
    ParseState.advance_of_rest h.alone.rest notEnd]
  exact ⟨⟨rfl, plain'⟩, ⟨rfl, plain'⟩, h.errors, h.nextRef⟩

/-- Both parses are on their way to the semicolon. -/
def pairing (site : Site) : Pairing where
  related s t := ∃ ts, site.Matches ts s t
  number id := site.firstRef + id
  semicolons := False
  peek := by
    rintro s t ⟨ts, h⟩
    rw [ParseState.peek, ParseState.peek, h.reaches.rest, h.alone.rest]
    cases ts <;> rfl
  advance := by
    rintro s t ⟨ts, h⟩ notEnd may
    cases ts with
    | nil =>
      have next : t.peek = site.semicolon := by
        rw [ParseState.peek, h.alone.rest]
        rfl
      exact (may (next ▸ site.isSemicolon)).elim
    | cons u ts => exact ⟨ts, h.advance⟩
  record := by
    rintro s t ⟨ts, h⟩ e
    have errors : (s.record e).errors.toList = site.errors ++ (t.record e).errors.toList := by
      simp [ParseState.record, h.errors]
    exact ⟨ts, ⟨h.reaches.rest, h.reaches.plain⟩, ⟨h.alone.rest, h.alone.plain⟩, errors, h.nextRef⟩
  nextRef := fun ⟨_, h⟩ => h.nextRef
  fresh := fun ⟨ts, h⟩ => ⟨ts, ⟨h.reaches.rest, h.reaches.plain⟩, ⟨h.alone.rest, h.alone.plain⟩,
    h.errors, congrArg (· + 1) h.nextRef⟩

/-- The site of a statement of which the tokens up to the semicolon are left. -/
def of (s : ParseState) (semicolon : Token) (isSemicolon : semicolon.kind = .symbol .semicolon)
    (follow : List Token) : Site :=
  ⟨semicolon, isSemicolon, follow, s.errors.toList, s.nextRef⟩

theorem of_related {follow : List Token} {semicolon : Token}
    (isSemicolon : semicolon.kind = .symbol .semicolon) (plain : ∀ t ∈ ts, t.Plain)
    (left : s.rest = ts ++ semicolon :: follow) (alone : t.rest = ts ++ [semicolon])
    (noErrors : t.errors = #[]) (first : t.nextRef = 0) :
    (of s semicolon isSemicolon follow).pairing.related s t :=
  ⟨ts, ⟨left, plain⟩, ⟨alone, plain⟩, by simp [of, noErrors], by simp [of, first]⟩

/-! ## Statements up to their semicolon -/

/-- Both parses give the same statement and are behind the semicolon, or the same error stops both
before it. -/
inductive Closes (site : Site) : EStateM.Result SyntaxError ParseState (Stmt RefId) →
    EStateM.Result SyntaxError ParseState (Stmt RefId) → Prop
  | ok {stmt : Stmt RefId} {s t : ParseState} : s.rest = site.follow →
    s.errors.toList = site.errors ++ t.errors.toList →
    Closes site (.ok (site.pairing.stmt stmt) s) (.ok stmt t)
  | error {e : SyntaxError} {s t : ParseState} : site.pairing.related s t →
    Closes site (.error e s) (.error e t)

/-- The rules do the same up to the semicolon where fewer than `n` tokens are left in the second
parse. -/
def ClosesAlike (site : Site) (n : Nat) (p q : Parser (Stmt RefId)) : Prop :=
  ∀ s t, site.pairing.related s t → t.rest.length < n → site.Closes (p s) (q t)

variable {α : Type} {n m : Nat} {p q p' q' : Parser α} {φ : α → α}
  {f g : α → Parser (Stmt RefId)}

theorem closesAlike_bind (hp : site.pairing.Alike n m p q φ)
    (hf : ∀ a, site.ClosesAlike m (f (φ a)) (g a)) : site.ClosesAlike n (p >>= f) (q >>= g) := by
  intro s t related few
  have first := hp s t related few
  simp only [Bind.bind, EStateM.bind]
  revert first
  generalize p s = x
  generalize q t = y
  intro first
  cases first with
  | error related => exact .error related
  | ok same related _ few => exact same ▸ hf _ _ _ related few

/-- Two ways to read something that the rule then goes on with. -/
theorem closesAlike_choose {c : Prop} [Decidable c] (hp : site.pairing.Alike n m p q φ)
    (hq : site.pairing.Alike n m p' q' φ) (hf : ∀ a, site.ClosesAlike m (f (φ a)) (g a)) :
    site.ClosesAlike n (if c then p >>= f else p' >>= f) (if c then q >>= g else q' >>= g) := by
  split
  · exact closesAlike_bind hp hf
  · exact closesAlike_bind hq hf

/-- The semicolon is taken where it is next, and nowhere else. -/
theorem closesAlike_semicolon (place : String) (stmt : Stmt RefId) :
    site.ClosesAlike n (expectSymbol .semicolon place >>= fun _ => pure (site.pairing.stmt stmt))
      (expectSymbol .semicolon place >>= fun _ => pure stmt) := by
  rintro s t ⟨ts, h⟩ -
  have related : site.pairing.related s t := ⟨ts, h⟩
  simp only [Bind.bind, EStateM.bind, expectSymbol, expect_eq, site.pairing.peek related,
    Pairing.isNext_eq related]
  cases next : t.isNext (.symbol .semicolon) with
  | false => exact .error related
  | true =>
    cases ts with
    | nil =>
      refine .ok ?_ ?_
      · rw [ParseState.advance_of_rest h.reaches.rest site.notEnd]
      · rw [ParseState.errors_advance, ParseState.errors_advance, h.errors]
    | cons u ts =>
      rw [ParseState.isNext_iff rfl, h.alone.rest, List.cons_append, begins_cons] at next
      have plain := h.reaches.plain u (List.mem_cons_self ..)
      exact absurd (Kind.sameSort_symbol.1 next) plain.notSemicolon

theorem expressionStatement_closes {p q : Parser (Expr RefId)}
    (h : site.pairing.Alike n m p q site.pairing.expr) :
    site.ClosesAlike n (expressionStatement p) (expressionStatement q) :=
  closesAlike_bind h fun e => closesAlike_semicolon _ (.expression e)

section

variable {r r' : Rules} (hr : site.pairing.ExpressionsAlike n r r')
include hr

theorem printStatement_closes : site.ClosesAlike n (printStatement r) (printStatement r') :=
  closesAlike_bind (hr.expression.keep (Nat.le_refl n)) fun e => closesAlike_semicolon _ (.print e)

theorem returnStatement_closes (line : Nat) :
    site.ClosesAlike n (returnStatement line r) (returnStatement line r') := by
  refine closesAlike_bind (alike_check _) fun _ => ?_
  have value := some_alike (hr.expression.keep (Nat.le_refl n))
  exact closesAlike_choose (alike_pure rfl) value fun e? => closesAlike_semicolon _ (.ret line e?)

theorem variableDeclaration_closes :
    site.ClosesAlike n (variableDeclaration r) (variableDeclaration r') := by
  refine closesAlike_bind (alike_expectName _) fun name => ?_
  refine closesAlike_bind (alike_accept nofun) fun _ => ?_
  have value := some_alike (hr.expression.keep (Nat.le_refl n))
  exact closesAlike_choose value (alike_pure rfl) fun e? =>
    closesAlike_semicolon _ (.declare name e?)

end

/-- If both parses have come up to the semicolon, both go on behind it, with the same errors. -/
theorem Closes.declaration {n₁ n₂ : Nat} {r r' : Rules}
    (h : site.Closes (declarationOrError n₁ r s) (declarationOrError n₂ r' t)) :
    ∃ s? s' t? t', declaration n₁ r s = .ok s? s' ∧ declaration n₂ r' t = .ok t? t' ∧
      s'.rest = site.follow ∧ s?.map Stmt.bare = t?.map Stmt.bare ∧
        s'.errors.toList = site.errors ++ t'.errors.toList := by
  unfold Parser.declaration
  revert h
  generalize declarationOrError n₁ r s = x
  generalize declarationOrError n₂ r' t = y
  intro h
  cases h with
  | @ok stmt s' t' left errors =>
    have same : (site.pairing.stmt stmt).bare = stmt.bare := Stmt.mapMarks_mapMarks _ _ stmt
    exact ⟨_, s', _, t', rfl, rfl, left, congrArg some same, errors⟩
  | @error e s' t' related =>
    obtain ⟨ts, recorded⟩ := site.pairing.record related e
    refine ⟨none, _, none, _, rfl, rfl, recorded.reaches.synchronize, rfl, ?_⟩
    simpa only [synchronize, ParseState.errors_advance] using recorded.errors

end Site

end Lox
