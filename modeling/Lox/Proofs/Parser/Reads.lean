import Lox.Parser.Program
import Lox.Proofs.Parser.Gives
import Lox.Proofs.Parser.Grammar

/-!
# What the rules of a parse read

`Reads n p D` says what the rule `p` takes when it records no error: tokens other than the end, that
`D` relates to the result and to the tokens left behind it. It says so where fewer than `n` tokens
are left, which is what `Parser.rules n` is meant for; that no error recorded before is lost holds
anywhere. There is one lemma for each step that a rule is made of.
-/

namespace Lox

open Grammar (Begins)

theorem Token.isEnd_of_kind {t : Token} {kind : Kind} (is : t.kind = kind)
    (notEnd : kind.sameSort .endOfInput = false) : t.isEnd = false := by
  rw [Token.isEnd, is, notEnd]

namespace ParseState

variable {s : ParseState} {kind : Kind}

/-- A token of the sort asked for is next: taking it leaves those behind it. -/
theorem advance_of_isNext (next : s.isNext kind = true) :
    ∃ t rest, s.rest = t :: rest ∧ t.isEnd = false ∧ t.kind.sameSort kind = true ∧
      s.advance = { s with rest := rest, previous := t } := by
  simp only [isNext, atEnd, Bool.and_eq_true, Bool.not_eq_true'] at next
  cases hr : s.rest with
  | nil => simp [peek, hr, Token.isEnd, Token.missingEnd, Kind.sameSort] at next
  | cons t rest =>
    have notEnd : t.isEnd = false := by simpa [peek, hr] using next.1
    have same : t.kind.sameSort kind = true := by simpa [peek, hr] using next.2
    exact ⟨t, rest, rfl, notEnd, same, by simp [advance, hr, notEnd]⟩

theorem isNext_iff (notEnd : Kind.endOfInput.sameSort kind = false) :
    s.isNext kind = true ↔ Begins (·.sameSort kind) s.rest := by
  cases hr : s.rest with
  | nil => simp [isNext, atEnd, peek, hr, Token.isEnd, Token.missingEnd, Kind.sameSort]
  | cons t rest =>
    simp only [isNext, atEnd, peek, hr, List.headD_cons, Bool.and_eq_true, Bool.not_eq_true',
      Grammar.begins_cons, and_iff_right_iff_imp]
    intro same
    cases isEnd : t.isEnd with
    | false => rfl
    | true =>
      have kindEnd : t.kind = .endOfInput := by simpa [Token.isEnd] using isEnd
      simp [kindEnd, notEnd] at same

@[simp] theorem errors_advance : s.advance.errors = s.errors := by
  unfold advance
  split
  · rfl
  · split <;> rfl

end ParseState

namespace Parser

/-- No error is lost, and what is taken without a new one is what `D` says, if the tokens left
before are `ok`. -/
def ReadsWhere {α : Type} (ok : List Token → Prop) (p : Parser α)
    (D : List Token → α → List Token → Prop) : Prop :=
  ∀ s : ParseState,
    match p s with
    | .ok a s' => s.errors.size ≤ s'.errors.size ∧
        (s'.errors.size = s.errors.size → ok s.rest →
          ∃ ts, s.rest = ts ++ s'.rest ∧ (∀ t ∈ ts, t.isEnd = false) ∧ D ts a s'.rest)
    | .error _ s' => s.errors.size ≤ s'.errors.size

/-- What is taken is what `D` says, where fewer than `n` tokens are left. -/
abbrev Reads {α : Type} (n : Nat) (p : Parser α) (D : List Token → α → List Token → Prop) : Prop :=
  ReadsWhere (·.length < n) p D

/-- What is taken is what `D` says, where fewer than `n` tokens are left and this one is next. -/
abbrev ReadsAt {α : Type} (n : Nat) (next : Token) (p : Parser α)
    (D : List Token → α → List Token → Prop) : Prop :=
  ReadsWhere (fun ts => ts.length < n ∧ ts.headD Token.missingEnd = next) p D

section

variable {α β : Type} {n m : Nat} {ok ok' : List Token → Prop} {p q : Parser α}
  {f : α → Parser β} {D D' E : List Token → α → List Token → Prop}
  {F : α → List Token → β → List Token → Prop}

theorem ReadsWhere.mono (h : ReadsWhere ok p D)
    (imp : ∀ ts a follow, D ts a follow → D' ts a follow) : ReadsWhere ok p D' := by
  intro s
  have first := h s
  revert first
  cases p s with
  | error e s' => exact id
  | ok a s' =>
    rintro ⟨le, took⟩
    refine ⟨le, fun same fits => ?_⟩
    obtain ⟨ts, rest, notEnd, holds⟩ := took same fits
    exact ⟨ts, rest, notEnd, imp _ _ _ holds⟩

theorem ReadsWhere.weaken (h : ReadsWhere ok p D) (imp : ∀ ts, ok' ts → ok ts) :
    ReadsWhere ok' p D := by
  intro s
  have first := h s
  revert first
  cases p s with
  | error e s' => exact id
  | ok a s' => exact fun ⟨le, took⟩ => ⟨le, fun same fits => took same (imp _ fits)⟩

theorem Reads.fewer (h : Reads n p D) (le : m ≤ n) : Reads m p D :=
  h.weaken fun _ fits => Nat.lt_of_lt_of_le fits le

theorem reads_pure {a : α} : ReadsWhere ok (pure a) fun ts b _ => ts = [] ∧ b = a :=
  fun _ => ⟨Nat.le_refl _, fun _ _ => ⟨[], rfl, by simp, rfl, rfl⟩⟩

/-- With no token left to count, there is nothing to read. -/
theorem reads_zero {a : α} : Reads 0 (pure a) D :=
  fun _ => ⟨Nat.le_refl _, fun _ fits => absurd fits (Nat.not_lt_zero _)⟩

/-- One rule behind the other. What the first takes lowers the number of tokens left. -/
theorem Reads.bindAfter (hp : Reads n p D) (hf : ∀ a, Reads m (f a) (F a))
    (taken : ∀ ts a follow, D ts a follow → n ≤ ts.length + m) :
    Reads n (p >>= f) fun ts b follow =>
      ∃ a ts₁ ts₂, ts = ts₁ ++ ts₂ ∧ D ts₁ a (ts₂ ++ follow) ∧ F a ts₂ b follow := by
  intro s
  have first := hp s
  simp only [Bind.bind, EStateM.bind]
  revert first
  cases p s with
  | error e s₁ => exact id
  | ok a s₁ =>
    rintro ⟨le, took⟩
    have second := hf a s₁
    dsimp only
    revert second
    cases f a s₁ with
    | error e s' => exact Nat.le_trans le
    | ok b s' =>
      rintro ⟨le', took'⟩
      refine ⟨Nat.le_trans le le', fun same fits => ?_⟩
      have same₁ : s₁.errors.size = s.errors.size := by omega
      obtain ⟨ts₁, rest, notEnd₁, holds⟩ := took same₁ fits
      have fewer : s₁.rest.length < m := by
        have enough := taken _ _ _ holds
        rw [rest, List.length_append] at fits
        omega
      obtain ⟨ts₂, rest', notEnd₂, holds'⟩ := took' (same.trans same₁.symm) fewer
      refine ⟨ts₁ ++ ts₂, ?_, ?_, a, ts₁, ts₂, rfl, rest' ▸ holds, holds'⟩
      · rw [rest, rest', List.append_assoc]
      · intro t mem
        exact (List.mem_append.1 mem).elim (notEnd₁ t) (notEnd₂ t)

theorem Reads.bind (hp : Reads n p D) (hf : ∀ a, Reads n (f a) (F a)) :
    Reads n (p >>= f) fun ts b follow =>
      ∃ a ts₁ ts₂, ts = ts₁ ++ ts₂ ∧ D ts₁ a (ts₂ ++ follow) ∧ F a ts₂ b follow :=
  hp.bindAfter hf fun _ _ _ _ => Nat.le_add_left _ _

/-- A step that takes nothing. -/
theorem Reads.after {G : List Token → β → List Token → Prop}
    (hp : Reads n p fun ts _ _ => ts = []) (hf : ∀ a, Reads n (f a) G) : Reads n (p >>= f) G := by
  refine (hp.bind hf).mono ?_
  rintro ts b follow ⟨a, ts₁, ts₂, rfl, rfl, holds⟩
  exact holds

theorem Reads.map {f : α → β} (hp : Reads n p D) :
    Reads n (f <$> p) fun ts b follow => ∃ a, b = f a ∧ D ts a follow := by
  rw [← bind_pure_comp]
  refine (hp.bind fun a => reads_pure).mono ?_
  rintro ts b follow ⟨a, ts₁, ts₂, rfl, holds, rfl, rfl⟩
  rw [List.append_nil]
  exact ⟨a, rfl, holds⟩

theorem Reads.ite {c : Prop} [Decidable c] (hp : Reads n p D) (hq : Reads n q E) :
    Reads n (if c then p else q) fun ts a follow =>
      (c ∧ D ts a follow) ∨ (¬c ∧ E ts a follow) := by
  split
  · next holds => exact hp.mono fun _ _ _ read => .inl ⟨holds, read⟩
  · next fails => exact hq.mono fun _ _ _ read => .inr ⟨fails, read⟩

/-- Two ways to read something that the rule then goes on with. -/
theorem Reads.choose {c : Prop} [Decidable c] (hp : Reads n p D) (hq : Reads n q E)
    (hf : ∀ a, Reads n (f a) (F a)) :
    Reads n (if c then p >>= f else q >>= f) fun ts b follow =>
      ∃ a ts₁ ts₂, ts = ts₁ ++ ts₂ ∧ (D ts₁ a (ts₂ ++ follow) ∨ E ts₁ a (ts₂ ++ follow)) ∧
        F a ts₂ b follow := by
  split
  · refine (hp.bind hf).mono ?_
    rintro ts b follow ⟨a, ts₁, ts₂, rfl, read, rest⟩
    exact ⟨a, ts₁, ts₂, rfl, .inl read, rest⟩
  · refine (hq.bind hf).mono ?_
    rintro ts b follow ⟨a, ts₁, ts₂, rfl, read, rest⟩
    exact ⟨a, ts₁, ts₂, rfl, .inr read, rest⟩

end

/-! ## Single steps -/

section

variable {α β : Type} {n m : Nat} {ok : List Token → Prop} {D E : List Token → α → List Token → Prop}
  {F : Token → List Token → β → List Token → Prop} {G : List Token → β → List Token → Prop}

theorem reads_failHere {cause : SyntaxCause} : ReadsWhere ok (failHere cause) D :=
  fun _ => Nat.le_refl _

/-- A rule that records an error reads nothing that counts. -/
theorem reads_report {cause : SyntaxCause} {t : Token} :
    ReadsWhere ok (report cause t) fun _ _ _ => False := by
  intro s
  have more : (s.record ⟨cause, t⟩).errors.size = s.errors.size + 1 := Array.size_push _
  refine ⟨?_, fun same => ?_⟩
  · rw [more]
    exact Nat.le_succ _
  · rw [more] at same
    omega

theorem reads_check (kind : Kind) : ReadsWhere ok (check kind) fun ts _ _ => ts = [] :=
  fun _ => ⟨Nat.le_refl _, fun _ _ => ⟨[], rfl, by simp, rfl⟩⟩

theorem reads_atEnd : ReadsWhere ok atEnd fun ts ended follow =>
    ts = [] ∧ ended = (follow.headD Token.missingEnd).isEnd :=
  fun _ => ⟨Nat.le_refl _, fun _ _ => ⟨[], rfl, by simp, rfl, rfl⟩⟩

theorem reads_previous : ReadsWhere ok previous fun ts _ _ => ts = [] :=
  fun _ => ⟨Nat.le_refl _, fun _ _ => ⟨[], rfl, by simp, rfl⟩⟩

theorem reads_freshRef : ReadsWhere ok freshRef fun ts _ _ => ts = [] :=
  fun _ => ⟨Nat.le_refl _, fun _ _ => ⟨[], rfl, by simp, rfl⟩⟩

theorem reads_reference (name : Name) :
    Reads n (reference name) fun ts r _ => ts = [] ∧ r.name = name :=
  Reads.after reads_freshRef fun _ => reads_pure.mono fun _ _ _ h => ⟨h.1, by rw [h.2]⟩

/-- The rule goes on with the next token, which it does not take. -/
theorem Reads.peek {f : Token → Parser β} (hf : ∀ t, ReadsAt n t (f t) G) :
    Reads n (Parser.peek >>= f) G := by
  intro s
  have second := hf s.peek s
  simp only [Bind.bind, EStateM.bind, Parser.peek]
  revert second
  cases f s.peek s with
  | error e s' => exact id
  | ok b s' => exact fun ⟨le, took⟩ => ⟨le, fun same fits => took same ⟨fits, rfl⟩⟩

/-- A rule that may record an error first has read something only if it did not. -/
theorem Reads.afterReport {c : Prop} [Decidable c] {p : Parser β} {cause : SyntaxCause}
    (hp : Reads n p G) :
    Reads n (if c then Parser.peek >>= fun t => report cause t >>= fun _ => p else p)
      fun ts b follow => ¬c ∧ G ts b follow := by
  split
  · refine Reads.peek fun t => ((Reads.bind reads_report fun _ => hp).mono ?_).weaken ?_
    · rintro ts b follow ⟨_, _, _, _, impossible, _⟩
      exact impossible.elim
    · exact fun _ fits => fits.1
  · next notC => exact hp.mono fun _ _ _ holds => ⟨notC, holds⟩

theorem Reads.at {p : Parser α} (h : Reads n p D) (t : Token) : ReadsAt n t p D :=
  h.weaken fun _ fits => fits.1

/-- The next token, which is not the end, is taken. -/
theorem ReadsAt.take {t : Token} {f : Token → Parser β} (notEnd : t.isEnd = false)
    (hf : ∀ t, Reads m (f t) (F t)) (le : n ≤ m + 1) :
    ReadsAt n t (advance >>= f) fun ts b follow =>
      ∃ ts', ts = t :: ts' ∧ F t ts' b follow := by
  intro s
  have second := hf s.advance.previous s.advance
  simp only [Bind.bind, EStateM.bind, advance]
  rw [ParseState.errors_advance] at second
  revert second
  cases f s.advance.previous s.advance with
  | error e s' => exact id
  | ok b s' =>
    rintro ⟨le, took⟩
    refine ⟨le, fun same ⟨fits, isNext⟩ => ?_⟩
    cases hr : s.rest with
    | nil =>
      rw [hr] at isNext
      simp [← isNext, Token.isEnd, Token.missingEnd, Kind.sameSort] at notEnd
    | cons u rest =>
      have isNext : u = t := by simpa [hr] using isNext
      have advanced : s.advance = { s with rest := rest, previous := t } := by
        simp [ParseState.advance, hr, isNext, notEnd]
      rw [advanced] at took
      have fewer : rest.length < m := by
        rw [hr, List.length_cons] at fits
        omega
      obtain ⟨ts, left, others, holds⟩ := took same fewer
      refine ⟨t :: ts, ?_, List.forall_mem_cons.2 ⟨notEnd, others⟩, ts, rfl, holds⟩
      rw [isNext, List.cons_append, ← left]

theorem reads_expect (kind : Kind) (cause : SyntaxCause) :
    ReadsWhere ok (expect kind cause) fun ts t _ => ts = [t] ∧ t.kind.sameSort kind = true := by
  intro s
  simp only [expect, Bind.bind, EStateM.bind, check]
  cases next : s.isNext kind with
  | false => exact Nat.le_refl _
  | true =>
    obtain ⟨t, rest, hr, notEnd, same, advanced⟩ := ParseState.advance_of_isNext next
    simp only [if_true, advance, advanced]
    exact ⟨Nat.le_refl _, fun _ _ => ⟨[t], hr, by simp [notEnd], rfl, same⟩⟩

theorem reads_expectSymbol (symbol : Symbol) (place : String) :
    ReadsWhere ok (expectSymbol symbol place) fun ts t _ => ts = [t] ∧ t.kind = .symbol symbol :=
  (reads_expect _ _).mono fun _ _ _ h => ⟨h.1, Kind.sameSort_symbol.1 h.2⟩

theorem reads_expectName (sort : String) :
    Reads n (expectName sort) fun ts name _ =>
      ∃ t, ts = [t] ∧ t.kind = .identifier ∧ name = t.asName := by
  refine (Reads.bind (reads_expect _ _) fun _ => reads_pure).mono ?_
  rintro ts name follow ⟨t, ts₁, ts₂, rfl, ⟨rfl, same⟩, rfl, rfl⟩
  exact ⟨t, rfl, Kind.sameSort_identifier.1 same, rfl⟩

/-- The next token decides how to go on, and is taken if it is of the sort asked for. -/
theorem Reads.accept {kind : Kind} {p q : Parser α} (le : n ≤ m + 1)
    (notEnd : Kind.endOfInput.sameSort kind = false) (hp : Reads m p D) (hq : Reads n q E) :
    Reads n (Parser.accept kind >>= fun taken => if taken = true then p else q) fun ts a follow =>
      (∃ t ts', ts = t :: ts' ∧ t.kind.sameSort kind = true ∧ D ts' a follow) ∨
        ¬ Begins (·.sameSort kind) (ts ++ follow) ∧ E ts a follow := by
  intro s
  simp only [Bind.bind, EStateM.bind, Parser.accept]
  cases next : s.isNext kind with
  | false =>
    have other := hq s
    simp only [Bool.false_eq_true, if_false]
    revert other
    cases q s with
    | error e s' => exact id
    | ok a s' =>
      rintro ⟨le, took⟩
      refine ⟨le, fun same fits => ?_⟩
      obtain ⟨ts, rest, others, holds⟩ := took same fits
      refine ⟨ts, rest, others, .inr ⟨fun begins => ?_, holds⟩⟩
      rw [← rest, ← ParseState.isNext_iff notEnd, next] at begins
      exact Bool.false_ne_true begins
  | true =>
    obtain ⟨t, rest, hr, tNotEnd, sameSort, advanced⟩ := ParseState.advance_of_isNext next
    have accepted := hp s.advance
    simp only [if_true]
    rw [ParseState.errors_advance] at accepted
    revert accepted
    cases p s.advance with
    | error e s' => exact id
    | ok a s' =>
      rw [advanced]
      rintro ⟨le, took⟩
      refine ⟨le, fun same fits => ?_⟩
      have fewer : rest.length < m := by
        rw [hr, List.length_cons] at fits
        omega
      obtain ⟨ts, left, others, holds⟩ := took same fewer
      refine ⟨t :: ts, ?_, List.forall_mem_cons.2 ⟨tNotEnd, others⟩,
        .inl ⟨t, ts, rfl, sameSort, holds⟩⟩
      rw [hr, List.cons_append, ← left]

/-- The next token, which is not taken, decides how to read something that the rule then goes on
with. -/
theorem Reads.checkChoose {kind : Kind} {p q : Parser α} {f : α → Parser β}
    {F : α → List Token → β → List Token → Prop} (hp : Reads n p D) (hq : Reads n q E)
    (hf : ∀ a, Reads n (f a) (F a)) :
    Reads n (Parser.check kind >>= fun found => if found = true then p >>= f else q >>= f)
      fun ts b follow => ∃ a ts₁ ts₂, ts = ts₁ ++ ts₂ ∧
        (D ts₁ a (ts₂ ++ follow) ∨ E ts₁ a (ts₂ ++ follow)) ∧ F a ts₂ b follow :=
  Reads.after (reads_check _) fun _ => hp.choose hq hf

/-- The next token decides how to read something that the rule then goes on with. -/
theorem Reads.acceptChoose {kind : Kind} (notEnd : Kind.endOfInput.sameSort kind = false)
    {p q : Parser α} {f : α → Parser β} {F : α → List Token → β → List Token → Prop}
    (hp : Reads n p D) (hq : Reads n q E) (hf : ∀ a, Reads n (f a) (F a)) :
    Reads n (Parser.accept kind >>= fun taken => if taken = true then p >>= f else q >>= f)
      fun ts b follow => ∃ a ts₁ ts₂, ts = ts₁ ++ ts₂ ∧
        ((∃ t ts', ts₁ = t :: ts' ∧ t.kind.sameSort kind = true ∧ D ts' a (ts₂ ++ follow)) ∨
          ¬ Begins (·.sameSort kind) (ts₁ ++ (ts₂ ++ follow)) ∧ E ts₁ a (ts₂ ++ follow)) ∧
        F a ts₂ b follow := by
  have split : (Parser.accept kind >>= fun taken => if taken = true then p >>= f else q >>= f) =
      (Parser.accept kind >>= fun taken => if taken = true then p else q) >>= f := by
    rw [bind_assoc]
    congr
    funext taken
    cases taken <;> rfl
  rw [split]
  exact (Reads.accept (Nat.le_succ n) notEnd hp hq).bind hf

end

end Parser

end Lox
