import Lox.Proofs.Parser.Reads

/-!
# Two parses side by side

A `Pairing` relates the states of two parses that see the same next token and stay related when both
do the same. `P.Alike n m p q φ` says that two rules do the same on such states, where fewer than
`n` tokens are left in the second one: they stop with the same error, or the result of the first is
`φ` of that of the second, and fewer than `m` tokens are left. So a rule that takes a token has `m`
below `n`, and a loop whose rounds take tokens comes to its end within `n` rounds. On the way the
second parse goes `Onward`: it takes tokens before the end, and it adds to the errors.
-/

namespace Lox

namespace ParseState

variable {s s₁ s₂ : ParseState}

/-- From `s` to `s'`, a parse has taken tokens, none of them the end, and has added to the
errors. -/
structure Onward (s s' : ParseState) : Prop where
  taken : ∃ ts, s.rest = ts ++ s'.rest ∧ ∀ t ∈ ts, t.isEnd = false
  recorded : ∃ errors, s'.errors.toList = s.errors.toList ++ errors

namespace Onward

theorem refl (s : ParseState) : s.Onward s :=
  ⟨⟨[], rfl, by simp⟩, ⟨[], by simp⟩⟩

theorem trans (first : s.Onward s₁) (second : s₁.Onward s₂) : s.Onward s₂ := by
  obtain ⟨⟨ts, split, notEnd⟩, ⟨errors, added⟩⟩ := first
  obtain ⟨⟨ts', split', notEnd'⟩, ⟨errors', added'⟩⟩ := second
  refine ⟨⟨ts ++ ts', ?_, fun t mem => ?_⟩, ⟨errors ++ errors', ?_⟩⟩
  · rw [split, split', List.append_assoc]
  · exact (List.mem_append.1 mem).elim (notEnd t) (notEnd' t)
  · rw [added', added, List.append_assoc]

theorem advance (s : ParseState) : s.Onward s.advance := by
  refine ⟨?_, ⟨[], by simp⟩⟩
  unfold ParseState.advance
  cases left : s.rest with
  | nil => exact ⟨[], by simp [left], by simp⟩
  | cons t rest =>
    cases isEnd : t.isEnd with
    | true => exact ⟨[], by simp [isEnd, left], by simp⟩
    | false => exact ⟨[t], by simp [isEnd], by simpa using isEnd⟩

theorem record (s : ParseState) (e : SyntaxError) : s.Onward (s.record e) :=
  ⟨⟨[], rfl, by simp⟩, ⟨[e], by simp [ParseState.record]⟩⟩

theorem fresh (s : ParseState) (next : RefId) : s.Onward { s with nextRef := next } :=
  ⟨⟨[], rfl, by simp⟩, ⟨[], by simp⟩⟩

theorem length_le (onward : s.Onward s₁) : s₁.rest.length ≤ s.rest.length := by
  obtain ⟨ts, split, -⟩ := onward.taken
  rw [split, List.length_append]
  exact Nat.le_add_left _ _

theorem errors_le (onward : s.Onward s₁) : s.errors.size ≤ s₁.errors.size := by
  obtain ⟨errors, added⟩ := onward.recorded
  have sizes := congrArg List.length added
  simp only [List.length_append, Array.length_toList] at sizes
  omega

/-- A parse that has come to the end has taken a token, if it was not there before. -/
theorem length_lt_of_atEnd (onward : s.Onward s₁) (before : s.atEnd = false)
    (behind : s₁.atEnd = true) : s₁.rest.length < s.rest.length := by
  obtain ⟨ts, split, -⟩ := onward.taken
  cases ts with
  | nil =>
    have same : s.rest = s₁.rest := split
    rw [atEnd, peek, same] at before
    rw [atEnd, peek, before] at behind
    cases behind
  | cons t ts =>
    rw [split, List.length_append, List.length_cons]
    omega

end Onward

theorem advance_of_rest {t : Token} {rest : List Token} (left : s.rest = t :: rest)
    (notEnd : t.isEnd = false) : s.advance = { s with rest := rest, previous := t } := by
  simp [advance, left, notEnd]

theorem length_advance (notEnd : s.atEnd = false) : s.advance.rest.length + 1 = s.rest.length := by
  cases left : s.rest with
  | nil => simp [atEnd, peek, left, Token.isEnd, Token.missingEnd, Kind.sameSort] at notEnd
  | cons t rest =>
    have other : t.isEnd = false := by simpa [atEnd, peek, left] using notEnd
    rw [advance_of_rest left other, List.length_cons]

theorem advance_of_atEnd (isEnd : s.atEnd = true) : s.advance = s := by
  unfold advance
  cases left : s.rest with
  | nil => rfl
  | cons t rest =>
    have isEnd : t.isEnd = true := by simpa [atEnd, peek, left] using isEnd
    simp [isEnd]

end ParseState

/-! ## Pairings -/

/-- How the states of two parses are related that do the same. -/
structure Pairing where
  related : ParseState → ParseState → Prop
  /-- The number that a reference of the second parse has in the first. -/
  number : RefId → RefId
  /-- Semicolons may be taken as well. -/
  semicolons : Prop
  peek : ∀ {s t}, related s t → s.peek = t.peek
  advance : ∀ {s t}, related s t → t.atEnd = false →
    (t.peek.kind = .symbol .semicolon → semicolons) → related s.advance t.advance
  record : ∀ {s t}, related s t → ∀ e, related (s.record e) (t.record e)
  nextRef : ∀ {s t}, related s t → s.nextRef = number t.nextRef
  fresh : ∀ {s t}, related s t →
    related { s with nextRef := s.nextRef + 1 } { t with nextRef := t.nextRef + 1 }

namespace Pairing

variable (P : Pairing)

/-- The expression of the first parse. -/
def expr : Expr RefId → Expr RefId := Expr.mapMarks fun _ => P.number

/-- The reference of the first parse. -/
def reference : Reference RefId → Reference RefId := Reference.mapMark fun _ => P.number

/-- The statement of the first parse. -/
def stmt : Stmt RefId → Stmt RefId := Stmt.mapMarks fun _ => P.number

/-- The function of the first parse. -/
def function : FunctionDecl RefId → FunctionDecl RefId := FunctionDecl.mapMarks fun _ => P.number

/-- Two rules end alike on related states, the second one on `t`. -/
inductive Ends {α : Type} (m : Nat) (φ : α → α) (t : ParseState) :
    EStateM.Result SyntaxError ParseState α → EStateM.Result SyntaxError ParseState α → Prop
  | ok {a b : α} {s' t' : ParseState} : a = φ b → P.related s' t' → t.Onward t' →
    t'.rest.length < m → Ends m φ t (.ok a s') (.ok b t')
  | error {e : SyntaxError} {s' t' : ParseState} : P.related s' t' → t.Onward t' →
    Ends m φ t (.error e s') (.error e t')

/-- Two rules do the same on related states, where the second one is `fit`. -/
def AlikeWhere {α : Type} (fit : ParseState → Prop) (m : Nat) (p q : Parser α) (φ : α → α) : Prop :=
  ∀ s t, P.related s t → fit t → P.Ends m φ t (p s) (q t)

/-- Two rules do the same where fewer than `n` tokens are left, and leave fewer than `m`. -/
abbrev Alike {α : Type} (n m : Nat) (p q : Parser α) (φ : α → α) : Prop :=
  P.AlikeWhere (·.rest.length < n) m p q φ

/-- Two rules do the same where fewer than `n` tokens are left and this one is next. -/
abbrev AlikeAt {α : Type} (n : Nat) (next : Token) (m : Nat) (p q : Parser α) (φ : α → α) : Prop :=
  P.AlikeWhere (fun t => t.rest.length < n ∧ t.peek = next) m p q φ

/-- Two rules do the same where fewer than `n` tokens are left, and take one. -/
def Progress {α : Type} (n : Nat) (p q : Parser α) (φ : α → α) : Prop :=
  ∀ m < n, P.Alike (m + 1) m p q φ

variable {P} {α β : Type} {n m k : Nat} {fit fit' : ParseState → Prop} {p q p' q' : Parser α}
  {f g : α → Parser β} {φ : α → α} {ψ : β → β}

theorem atEnd_eq {s t : ParseState} (h : P.related s t) : s.atEnd = t.atEnd := by
  rw [ParseState.atEnd, P.peek h, ParseState.atEnd]

theorem isNext_eq {s t : ParseState} (h : P.related s t) (kind : Kind) :
    s.isNext kind = t.isNext kind := by
  rw [ParseState.isNext, P.peek h, atEnd_eq h, ParseState.isNext]

/-- Both parses take the next token. -/
theorem taken {s t : ParseState} (h : P.related s t) (notEnd : t.atEnd = false)
    (may : t.peek.kind = .symbol .semicolon → P.semicolons) :
    P.related s.advance t.advance ∧ s.advance.previous = t.peek ∧ t.advance.previous = t.peek ∧
      t.advance.rest.length + 1 = t.rest.length := by
  have notEnd' : s.atEnd = false := (atEnd_eq h).trans notEnd
  refine ⟨P.advance h notEnd may, ?_, ?_, ParseState.length_advance notEnd⟩
  · rw [ParseState.previous_advance notEnd', P.peek h]
  · exact ParseState.previous_advance notEnd

/-- Both parses take the next token, which is of this sort. -/
theorem taken_of_isNext {s t : ParseState} {kind : Kind} (h : P.related s t)
    (next : t.isNext kind = true) (may : kind = .symbol .semicolon → P.semicolons) :
    P.related s.advance t.advance ∧ s.advance.previous = t.peek ∧ t.advance.previous = t.peek ∧
      t.advance.rest.length + 1 = t.rest.length := by
  simp only [ParseState.isNext, Bool.and_eq_true, Bool.not_eq_true'] at next
  obtain ⟨notEnd, same⟩ := next
  refine taken h notEnd fun isSemicolon => may ?_
  rw [isSemicolon] at same
  cases kind with
  | symbol other =>
    have is : Symbol.semicolon = other := by simpa [Kind.sameSort] using same
    rw [is]
  | _ => cases same

/-! ## Rules put together -/

/-- What ends alike behind some steps ends alike with them. -/
theorem Ends.after {t t₁ : ParseState} {x y : EStateM.Result SyntaxError ParseState α}
    (h : P.Ends m φ t₁ x y) (onward : t.Onward t₁) : P.Ends m φ t x y := by
  cases h with
  | ok same related onward' fewer => exact .ok same related (onward.trans onward') fewer
  | error related onward' => exact .error related (onward.trans onward')

theorem AlikeWhere.mono {m' : Nat} (h : P.AlikeWhere fit m p q φ) (imp : ∀ t, fit' t → fit t)
    (le : m ≤ m') : P.AlikeWhere fit' m' p q φ := by
  intro s t related fits
  have ends := h s t related (imp t fits)
  revert ends
  generalize p s = x
  generalize q t = y
  intro ends
  cases ends with
  | ok same related onward fewer =>
    exact .ok same related onward (Nat.lt_of_lt_of_le fewer le)
  | error related onward => exact .error related onward

theorem AlikeWhere.le {m' : Nat} (h : P.AlikeWhere fit m p q φ) (le : m ≤ m') :
    P.AlikeWhere fit m' p q φ :=
  h.mono (fun _ fits => fits) le

/-- There are not fewer than no tokens. -/
theorem alike_zero : P.Alike 0 m p q φ := fun _ _ _ fits => absurd fits (Nat.not_lt_zero _)

theorem Alike.at (h : P.Alike n m p q φ) (next : Token) : P.AlikeAt n next m p q φ :=
  h.mono (fun _ fits => fits.1) (Nat.le_refl m)

theorem Progress.fewer (h : P.Progress n p q φ) (le : k ≤ n) : P.Progress k p q φ :=
  fun m lt => h m (Nat.lt_of_lt_of_le lt le)

/-- A rule that takes a token leaves no more than there were. -/
theorem Progress.keep (h : P.Progress n p q φ) (le : k ≤ n) : P.Alike k k p q φ := by
  cases k with
  | zero => exact alike_zero
  | succ k => exact (h k le).le (Nat.le_succ k)

theorem AlikeWhere.bind (hp : P.AlikeWhere fit m p q φ)
    (hf : ∀ a, P.Alike m k (f (φ a)) (g a) ψ) : P.AlikeWhere fit k (p >>= f) (q >>= g) ψ := by
  intro s t related fits
  have first := hp s t related fits
  simp only [Bind.bind, EStateM.bind]
  revert first
  generalize p s = x
  generalize q t = y
  intro first
  cases first with
  | error related onward => exact .error related onward
  | @ok a b s₁ t₁ same related onward fewer =>
    subst same
    exact (hf b s₁ t₁ related fewer).after onward

theorem alike_pure {a b : α} (same : a = φ b) : P.Alike n n (pure a) (pure b) φ :=
  fun _ _ related fits => .ok same related (.refl _) fits

theorem AlikeWhere.map {f : α → β} (hp : P.AlikeWhere fit m p q φ) (same : ∀ a, f (φ a) = ψ (f a)) :
    P.AlikeWhere fit m (f <$> p) (f <$> q) ψ := by
  rw [← bind_pure_comp, ← bind_pure_comp]
  exact hp.bind fun a => alike_pure (same a)

theorem AlikeWhere.ite {c c' : Prop} [Decidable c] [Decidable c'] (same : c ↔ c')
    (hp : P.AlikeWhere fit m p q φ) (hq : P.AlikeWhere fit m p' q' φ) :
    P.AlikeWhere fit m (if c then p else p') (if c' then q else q') φ := by
  by_cases holds : c'
  · rw [if_pos (same.2 holds), if_pos holds]
    exact hp
  · rw [if_neg fun h => holds (same.1 h), if_neg holds]
    exact hq

/-- Two ways to read something that the rule then goes on with. -/
theorem AlikeWhere.choose {c : Prop} [Decidable c] (hp : P.AlikeWhere fit m p q φ)
    (hq : P.AlikeWhere fit m p' q' φ) (hf : ∀ a, P.Alike m k (f (φ a)) (g a) ψ) :
    P.AlikeWhere fit k (if c then p >>= f else p' >>= f) (if c then q >>= g else q' >>= g) ψ :=
  AlikeWhere.ite Iff.rfl (hp.bind hf) (hq.bind hf)

/-- Loops with different bounds are followed over the tokens left, of which there are at most as many
as either loop has rounds. -/
@[elab_as_elim]
theorem bounds_induction {motive : ∀ m k₁ k₂ : Nat, m ≤ k₁ → m ≤ k₂ → Prop}
    (none : ∀ k₁ k₂, motive 0 k₁ k₂ (Nat.zero_le k₁) (Nat.zero_le k₂))
    (more : ∀ m k₁ k₂ (le₁ : m ≤ k₁) (le₂ : m ≤ k₂), motive m k₁ k₂ le₁ le₂ →
      motive (m + 1) (k₁ + 1) (k₂ + 1) (Nat.succ_le_succ le₁) (Nat.succ_le_succ le₂))
    {m k₁ k₂ : Nat} (le₁ : m ≤ k₁) (le₂ : m ≤ k₂) : motive m k₁ k₂ le₁ le₂ := by
  induction m generalizing k₁ k₂ with
  | zero => exact none k₁ k₂
  | succ m ih =>
    obtain ⟨k₁, rfl⟩ := Nat.exists_eq_add_one_of_ne_zero (Nat.ne_zero_of_lt le₁)
    obtain ⟨k₂, rfl⟩ := Nat.exists_eq_add_one_of_ne_zero (Nat.ne_zero_of_lt le₂)
    exact more m k₁ k₂ _ _ (ih (Nat.le_of_succ_le_succ le₁) (Nat.le_of_succ_le_succ le₂))

end Pairing

/-! ## Single steps -/

namespace Parser

open Pairing

variable {P : Pairing} {α β : Type} {n m k : Nat} {fit : ParseState → Prop} {p q p' q' : Parser α}
  {φ : α → α} {ψ : β → β} {kind : Kind}

theorem alike_failHere {cause : SyntaxCause} :
    P.AlikeWhere fit m (failHere cause) (failHere cause) φ := by
  intro s t related _
  simp only [failHere, P.peek related]
  exact .error related (.refl _)

theorem alike_report (cause : SyntaxCause) (token : Token) :
    P.Alike n n (report cause token) (report cause token) fun u => u :=
  fun _ _ related fits => .ok rfl (P.record related _) (.record _ _) fits

theorem alike_check (kind : Kind) : P.Alike n n (check kind) (check kind) fun found => found :=
  fun _ _ related fits => .ok (isNext_eq related kind) related (.refl _) fits

theorem alike_atEnd : P.Alike n n atEnd atEnd fun ended => ended :=
  fun _ _ related fits => .ok (atEnd_eq related) related (.refl _) fits

theorem alike_freshRef : P.Alike n n freshRef freshRef P.number :=
  fun _ t related fits => .ok (P.nextRef related) (P.fresh related) (.fresh t _) fits

theorem alike_reference (name : Name) :
    P.Alike n n (reference name) (reference name) P.reference :=
  alike_freshRef.bind fun _ => alike_pure rfl

/-- The rules go on with the next token, which they do not take. -/
theorem alike_peek {f g : Token → Parser α} (h : ∀ next, P.AlikeAt n next m (f next) (g next) φ) :
    P.Alike n m (peek >>= f) (peek >>= g) φ := by
  intro s t related fits
  simp only [Bind.bind, EStateM.bind, peek, P.peek related]
  exact h t.peek s t related ⟨fits, rfl⟩

/-- The next token, which is not the end, is taken. -/
theorem alike_advance {next : Token} {f g : Token → Parser α} (notEnd : next.isEnd = false)
    (may : next.kind = .symbol .semicolon → P.semicolons)
    (h : P.Alike n m (f next) (g next) φ) :
    P.AlikeAt (n + 1) next m (advance >>= f) (advance >>= g) φ := by
  intro s t related ⟨fits, isNext⟩
  subst isNext
  obtain ⟨related, token, token', shorter⟩ := taken related notEnd may
  simp only [Bind.bind, EStateM.bind, advance, token, token']
  exact (h _ _ related (by omega)).after (.advance t)

theorem alike_accept (may : kind = .symbol .semicolon → P.semicolons) :
    P.Alike n n (accept kind) (accept kind) fun taken => taken := by
  intro s t related fits
  simp only [accept, isNext_eq related]
  cases next : t.isNext kind with
  | false => exact .ok rfl related (.refl t) fits
  | true =>
    obtain ⟨related, -, -, shorter⟩ := taken_of_isNext related next may
    exact .ok rfl related (.advance t) (by omega)

/-- The next token decides how to go on. If it is of the sort asked for, it is taken, and there are
fewer tokens left. -/
theorem alike_acceptOr (may : kind = .symbol .semicolon → P.semicolons)
    (hp : P.Alike n m p q φ) (hq : P.Alike (n + 1) m p' q' φ) :
    P.Alike (n + 1) m (accept kind >>= fun taken => if taken = true then p else p')
      (accept kind >>= fun taken => if taken = true then q else q') φ := by
  intro s t related fits
  simp only [Bind.bind, EStateM.bind, accept, isNext_eq related]
  cases next : t.isNext kind with
  | false => exact hq s t related fits
  | true =>
    obtain ⟨related, -, -, shorter⟩ := taken_of_isNext related next may
    exact (hp _ _ related (by omega)).after (.advance t)

/-- The next token decides how to go on. If it is of the sort asked for, it is taken, and the rules
go on with it. -/
theorem alike_acceptPrevious {f g : Token → Parser α}
    (may : kind = .symbol .semicolon → P.semicolons)
    (hf : ∀ token, P.Alike n m (f token) (g token) φ) (hq : P.Alike (n + 1) m p q φ) :
    P.Alike (n + 1) m
      (accept kind >>= fun taken => if taken = true then previous >>= f else p)
      (accept kind >>= fun taken => if taken = true then previous >>= g else q) φ := by
  intro s t related fits
  simp only [Bind.bind, EStateM.bind, accept, isNext_eq related]
  cases next : t.isNext kind with
  | false => exact hq s t related fits
  | true =>
    obtain ⟨related, token, token', shorter⟩ := taken_of_isNext related next may
    simp only [if_true, EStateM.bind, previous, token, token']
    exact (hf _ _ _ related (by omega)).after (.advance t)

theorem expect_eq (kind : Kind) (cause : SyntaxCause) (s : ParseState) : expect kind cause s =
    if s.isNext kind then .ok s.advance.previous s.advance else .error ⟨cause, s.peek⟩ s := by
  simp only [expect, Bind.bind, EStateM.bind, check]
  cases s.isNext kind <;> rfl

theorem expect_progress (cause : SyntaxCause) (may : kind = .symbol .semicolon → P.semicolons) :
    P.Progress n (expect kind cause) (expect kind cause) fun token => token := by
  intro m _ s t related fits
  rw [expect_eq, expect_eq, isNext_eq related, P.peek related]
  cases next : t.isNext kind with
  | false => exact .error related (.refl t)
  | true =>
    obtain ⟨related, token, token', shorter⟩ := taken_of_isNext related next may
    exact .ok (token.trans token'.symm) related (.advance t) (by omega)

theorem expectName_progress (sort : String) :
    P.Progress n (expectName sort) (expectName sort) fun name => name := by
  intro m lt
  have token : P.Progress n (expect .identifier (.expectedName sort))
    (expect .identifier (.expectedName sort)) fun token => token := expect_progress _ nofun
  exact (token m lt).bind fun _ => alike_pure rfl

theorem alike_expectSymbol {symbol : Symbol} (place : String) (other : symbol ≠ .semicolon) :
    P.Alike n n (expectSymbol symbol place) (expectSymbol symbol place) fun token => token :=
  (expect_progress _ fun is => absurd (Kind.symbol.inj is) other).keep (Nat.le_refl n)

theorem alike_expectSemicolon (full : P.semicolons) (place : String) :
    P.Alike n n (expectSymbol .semicolon place) (expectSymbol .semicolon place)
      fun token => token :=
  (expect_progress _ fun _ => full).keep (Nat.le_refl n)

theorem alike_expectName (sort : String) :
    P.Alike n n (expectName sort) (expectName sort) fun name => name :=
  (expectName_progress sort).keep (Nat.le_refl n)

/-- An error may be recorded before the rules go on. -/
theorem alike_afterReport {c c' : Prop} [Decidable c] [Decidable c'] (same : c ↔ c')
    {cause : SyntaxCause} (h : P.Alike n m p q φ) :
    P.Alike n m (if c then peek >>= fun t => report cause t >>= fun _ => p else p)
      (if c' then peek >>= fun t => report cause t >>= fun _ => q else q) φ := by
  refine AlikeWhere.ite same (alike_peek fun next => ?_) h
  exact Alike.at ((alike_report cause next).bind fun _ => h) next

/-- The rules stop at the end, or where they have found what stops them. -/
theorem alike_unlessEnded (found : Bool) (stop : P.Alike n m p q φ)
    (more : P.AlikeWhere (fun t => t.rest.length < n ∧ t.atEnd = false) m p' q' φ) :
    P.Alike n m (atEnd >>= fun ended => if (found || ended) = true then p else p')
      (atEnd >>= fun ended => if (found || ended) = true then q else q') φ := by
  intro s t related fits
  simp only [Bind.bind, EStateM.bind, atEnd, atEnd_eq related]
  cases ended : t.atEnd with
  | true =>
    rw [Bool.or_true, if_pos rfl, if_pos rfl]
    exact stop s t related fits
  | false =>
    cases found with
    | true => exact stop s t related fits
    | false => exact more s t related ⟨fits, ended⟩

/-! ## Boundaries -/

/-- The state at the next boundary between statements. -/
def atBoundary (s : ParseState) : ParseState :=
  { s with
    rest := (skipToBoundary s.previous s.rest).2
    previous := (skipToBoundary s.previous s.rest).1 }

theorem synchronize_eq (s : ParseState) : synchronize s = atBoundary s.advance := rfl

/-- What does not stop the way to the boundary is taken. -/
theorem atBoundary_eq (s : ParseState) : atBoundary s =
    if s.atEnd || s.previous.kind.sameSort (.symbol .semicolon) || beginsStatement s.peek then s
    else atBoundary s.advance := by
  obtain ⟨rest, previous, errors, nextRef⟩ := s
  cases rest with
  | nil => rfl
  | cons t rest =>
    simp only [atBoundary, skipToBoundary, ParseState.atEnd, ParseState.peek, List.headD_cons,
      ParseState.advance]
    cases isEnd : t.isEnd with
    | true => simp
    | false =>
      cases stop : previous.kind.sameSort (.symbol .semicolon) || beginsStatement t with
      | true => simp [stop]
      | false => simp [stop]

theorem alike_atBoundary (full : P.semicolons) {s t : ParseState} (related : P.related s t)
    (same : s.previous = t.previous) :
    P.related (atBoundary s) (atBoundary t) ∧ t.Onward (atBoundary t) := by
  induction left : t.rest.length using Nat.strongRecOn generalizing s t with
  | ind n ih =>
    subst left
    rw [atBoundary_eq s, atBoundary_eq t, atEnd_eq related, P.peek related, same]
    split
    · exact ⟨related, .refl t⟩
    · next goesOn =>
      have notEnd : t.atEnd = false := by
        cases ended : t.atEnd with
        | false => rfl
        | true => simp [ended] at goesOn
      obtain ⟨related, token, token', shorter⟩ := taken related notEnd fun _ => full
      obtain ⟨related, onward⟩ := ih _ (by omega) related (token.trans token'.symm) rfl
      exact ⟨related, (ParseState.Onward.advance t).trans onward⟩

/-- Both parses go on at the next boundary. -/
theorem alike_synchronize (full : P.semicolons) {s t : ParseState} (related : P.related s t) :
    P.related (synchronize s) (synchronize t) ∧ t.Onward (synchronize t) ∧
      (t.atEnd = false → (synchronize t).rest.length < t.rest.length) := by
  rw [synchronize_eq, synchronize_eq]
  cases ended : t.atEnd with
  | true =>
    have stop (s : ParseState) (isEnd : s.atEnd = true) : atBoundary s.advance = s := by
      rw [ParseState.advance_of_atEnd isEnd, atBoundary_eq, isEnd, Bool.true_or, Bool.true_or,
        if_pos rfl]
    rw [stop t ended, stop s ((atEnd_eq related).trans ended)]
    exact ⟨related, .refl t, nofun⟩
  | false =>
    obtain ⟨related, token, token', shorter⟩ := taken related ended fun _ => full
    obtain ⟨related, onward⟩ := alike_atBoundary full related (token.trans token'.symm)
    have fewer := onward.length_le
    exact ⟨related, (ParseState.Onward.advance t).trans onward, fun _ => by omega⟩

end Parser

end Lox
